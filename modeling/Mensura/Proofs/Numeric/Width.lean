import Mensura.Proofs.Numeric.Exact

/-! Single width within double width. A number of single width has no more bits than fit into a
double and an exponent far from its limits, so widening it is exact, and narrowing it again gives
it back. -/
namespace Mensura.Numeric
open Float.Model UnpackedFloat

variable {f : Format}

theorem ofBitVec_toBitVec (s : Sign) : Sign.ofBitVec s.toBitVec = s := by
  cases s <;> rfl

theorem unpackSign_packComponents (s : Sign) (x : BitVec f.exponentBits)
    (v : BitVec f.mantissaBitsWithoutImplicit) :
    unpackSign (packComponents f s x v) = s.toBitVec := by
  apply BitVec.eq_of_getLsbD_eq
  intro i hi
  obtain rfl : i = 0 := by omega
  simp [unpackSign,packComponents,BitVec.getLsbD_append,BitVec.getElem_append]

/-- The leading bit is put back. -/
theorem toNat_implicit_ofNat {n m : Nat} (hm : m ≠ 0) (hlog : m.log2 = n) :
    (1#1 ++ BitVec.ofNat n m).toNat = m := by
  obtain ⟨hleast,hmost⟩ := (Nat.log2_eq_iff hm).mp hlog
  have hrest : m % 2 ^ n = m - 2 ^ n := by
    rw [Nat.mod_eq_sub_mod hleast,Nat.mod_eq_of_lt]
    rw [Nat.pow_succ] at hmost
    omega
  rw [toNat_implicit_append,BitVec.toNat_ofNat,hrest]
  omega

/-- Nothing is lost by packing a number with a leading bit. -/
theorem unpack_pack_normal (s : Sign) {m : Nat} {e : Int} (hm : 0 < m)
    (hlog : m.log2 = f.mantissaBitsWithoutImplicit)
    (hleast : 0 < e + f.exponentBias + f.mantissaBitsWithoutImplicit)
    (hmost : e + f.exponentBias + f.mantissaBitsWithoutImplicit + 1 < 2 ^ f.exponentBits) :
    UnpackedFloat.unpack f (UnpackedFloat.pack f (.finite s m e hm)) = .finite s m e hm := by
  obtain ⟨x,hx⟩ := Int.eq_ofNat_of_zero_le hleast.le
  have hbits : m.log2 + 1 = f.mantissaBits := by
    rw [hlog,Format.mantissaBits,Nat.add_comm]
  have hlt : x + 1 < 2 ^ f.exponentBits := by
    rw [hx] at hmost
    exact_mod_cast hmost
  have hmod : x % 2 ^ f.exponentBits = x := Nat.mod_eq_of_lt (by omega)
  have hzero : BitVec.ofNat f.exponentBits x ≠ 0#f.exponentBits := by
    intro h
    have := congrArg BitVec.toNat h
    simp only [BitVec.toNat_ofNat,hmod,Nat.zero_mod] at this
    omega
  have hmax : BitVec.ofNat f.exponentBits x ≠ -1#f.exponentBits := by
    intro h
    have := congrArg BitVec.toNat h
    rw [BitVec.neg_one_eq_allOnes,BitVec.toNat_allOnes,BitVec.toNat_ofNat,hmod] at this
    omega
  have hpack : UnpackedFloat.pack f (.finite s m e hm) =
      packComponents f s (BitVec.ofNat _ x) (BitVec.ofNat _ m) := by
    simp only [UnpackedFloat.pack,hx,Int.toNat_natCast]
    rw [if_neg (by omega),if_pos hbits]
  simp only [hpack,UnpackedFloat.unpack,unpackExponent_packComponents,
    unpackMantissa_packComponents,unpackSign_packComponents,ofBitVec_toBitVec,hmax,hzero,if_false,
    toNat_implicit_ofNat hm.ne' hlog,BitVec.toNat_ofNat,hmod]
  congr 1
  omega

/-- The greatest exponent field belongs to what is not finite. -/
theorem exponent_lt_of_unpack (hf : 1 < f.exponentBits) {b : BitVec f.numBits} {s : Sign} {m : Nat}
    {e : Int} {hm : 0 < m} (h : UnpackedFloat.unpack f b = .finite s m e hm) :
    e + f.exponentBias + f.mantissaBitsWithoutImplicit + 1 < 2 ^ f.exponentBits := by
  have hpow : 2 ^ 2 ≤ 2 ^ f.exponentBits := Nat.pow_le_pow_right (by decide) hf
  have hfield := (unpackExponent b).isLt
  have hgoal : ∀ x : Nat, e = x - (f.exponentBias + f.mantissaBitsWithoutImplicit) →
      x + 1 < 2 ^ f.exponentBits →
      e + f.exponentBias + f.mantissaBitsWithoutImplicit + 1 < 2 ^ f.exponentBits := by
    intro x he hx
    have hx' : (x : Int) + 1 < 2 ^ f.exponentBits := by exact_mod_cast hx
    omega
  simp only [UnpackedFloat.unpack] at h
  split at h
  · split at h <;> cases h
  · rename_i hmax
    split at h
    · split at h
      · cases h
      · rename_i hexp hmant
        injection h with hs hm' he
        simp only [hexp,BitVec.toNat_ofNat,Nat.zero_mod] at he
        exact hgoal 1 (by omega) (by omega)
    · injection h with hs hm' he
      have hne : (unpackExponent b).toNat ≠ 2 ^ f.exponentBits - 1 := by
        intro hz
        refine hmax (BitVec.eq_of_toNat_eq ?_)
        rwa [BitVec.neg_one_eq_allOnes,BitVec.toNat_allOnes]
      exact hgoal _ he.symm (by omega)

theorem round_mul_two_pow {m : Nat} {e : Int} (hm : 0 < m) (h : IsCanonical f m e) (s : Sign)
    (k : Nat) : UnpackedFloat.round f s (m * 2 ^ k) (e - k) = .finite s m e hm := by
  have htarget : f.targetExponent (totalExponent (m * 2 ^ k) (e - k)) = e := by
    rw [totalExponent_mul_two_pow hm]
    exact h
  have hshift : (e - k - e).toNat = 0 := by omega
  simp only [UnpackedFloat.round,htarget,decreaseExponent,hshift,Nat.shiftLeft_zero]
  simpa using roundWithAccuracy_mul_two_pow hm h s k

/-- A number with bits to spare is not rounded. -/
theorem round_of_targetExponent_eq {m : Nat} {e : Int} (hm : 0 < m) (s : Sign) {k : Nat}
    (hk : f.targetExponent (totalExponent m e) = e - k) :
    UnpackedFloat.round f s m e =
      .finite s (m * 2 ^ k) (e - k) (Nat.mul_pos hm (Nat.two_pow_pos k)) := by
  have hshift : (e - (e - k)).toNat = k := by omega
  have hcanonical : IsCanonical f (m * 2 ^ k) (e - k) := by
    rw [IsCanonical,totalExponent_mul_two_pow hm]
    exact hk
  simp only [UnpackedFloat.round,hk,decreaseExponent,hshift,Nat.shiftLeft_eq]
  simpa using roundWithAccuracy_mul_two_pow (Nat.mul_pos hm (Nat.two_pow_pos k)) hcanonical s 0

/-- The numbers of single width, as they are once their bits are taken apart. -/
def IsSingle (u : UnpackedFloat) : Prop := ∃ x : Float32.Model, x.unpack = u

/-- A number of single width becomes one of double width with a leading bit. -/
theorem exists_round_double {s : Sign} {m : Nat} {e : Int} {hm : 0 < m}
    (h : IsSingle (.finite s m e hm)) :
    ∃ k : Nat, m.log2 + k = 52 ∧ UnpackedFloat.round .binary64 s m e =
      .finite s (m * 2 ^ k) (e - k) (Nat.mul_pos hm (Nat.two_pow_pos k)) := by
  obtain ⟨x,hx⟩ := h
  have hcanonical := isCanonical_of_unpack hx
  simp only [IsCanonical,Format.targetExponent,totalExponent,Format.minExponent,
    Format.mantissaBits] at hcanonical
  obtain ⟨k,hk⟩ : ∃ k, m.log2 + k = 52 := ⟨52 - m.log2,by omega⟩
  refine ⟨k,hk,round_of_targetExponent_eq hm s ?_⟩
  simp only [Format.targetExponent,totalExponent,Format.minExponent,Format.mantissaBits]
  omega

end Mensura.Numeric

namespace Mensura.Scalar
open Float.Model UnpackedFloat Numeric

theorem unpack_pack_roundTo {u : UnpackedFloat} (h : IsSingle u) :
    (Float.Model.pack (roundTo .binary64 u)).unpack = roundTo .binary64 u := by
  cases u with
  | notANumber => rfl
  | infinity s => cases s <;> rfl
  | zero s => cases s <;> rfl
  | finite s m e hm =>
    obtain ⟨k,hk,hround⟩ := exists_round_double h
    obtain ⟨x,hx⟩ := h
    have hlog : (m * 2 ^ k).log2 = 52 := by
      have := totalExponent_mul_two_pow hm k e
      simp only [totalExponent] at this
      omega
    have hmost := exponent_lt_of_unpack (by decide) hx
    have hleast := isCanonical_of_unpack hx
    simp only [IsCanonical,Format.targetExponent,totalExponent,Format.minExponent,
      Format.mantissaBits] at hleast
    simp only [Format.exponentBias] at hmost
    rw [roundTo,hround]
    apply unpack_pack_normal s _ hlog
    · simp only [Format.exponentBias]
      omega
    · simp only [Format.exponentBias]
      omega

theorem roundTo_roundTo {u : UnpackedFloat} (h : IsSingle u) :
    roundTo .binary32 (roundTo .binary64 u) = u := by
  cases u with
  | notANumber => rfl
  | infinity s => rfl
  | zero s => rfl
  | finite s m e hm =>
    obtain ⟨k,-,hround⟩ := exists_round_double h
    obtain ⟨x,hx⟩ := h
    rw [roundTo,hround]
    exact round_mul_two_pow hm (isCanonical_of_unpack hx) s k

theorem pack_unpack_single (x : Float32.Model) : Float32.Model.pack x.unpack = x := by
  obtain ⟨bits,hvalid⟩ := x
  simp only [Float32.Model.pack,Float32.Model.unpack,pack_unpack (by decide) hvalid]

/-- Widening loses nothing, and narrowing undoes it. -/
@[simp] theorem ofFloat_toFloat_single (x : Float32) : (ofFloat (toFloat x) : Float32) = x := by
  have hsingle : IsSingle x.toModel.unpack := ⟨x.toModel,rfl⟩
  calc (ofFloat (toFloat x) : Float32)
      = .ofModel (.pack (roundTo .binary32
          (Float.Model.pack (roundTo .binary64 x.toModel.unpack)).unpack)) := rfl
    _ = .ofModel (.pack x.toModel.unpack) := by
      rw [unpack_pack_roundTo hsingle,roundTo_roundTo hsingle]
    _ = x := by rw [pack_unpack_single]

end Mensura.Scalar

/-! Signs are kept by rounding and by packing, so the number nearest to a decimal without a minus
sign is not negative. -/
namespace Mensura.Numeric
open Float.Model UnpackedFloat

variable {f : Format}

def sign? : UnpackedFloat → Option Sign
  | .notANumber => none
  | .infinity s | .zero s | .finite s .. => some s

theorem sign?_unpack (b : BitVec f.numBits) :
    ∀ s ∈ sign? (UnpackedFloat.unpack f b), s = Sign.ofBitVec (unpackSign b) := by
  intro s hs
  simp only [UnpackedFloat.unpack] at hs
  split_ifs at hs <;> simp_all [sign?]

theorem unpackSign_pack {u : UnpackedFloat} {s : Sign} (h : sign? u = some s) :
    unpackSign (UnpackedFloat.pack f u) = s.toBitVec := by
  cases u with
  | notANumber => simp [sign?] at h
  | infinity t =>
    cases h
    exact unpackSign_packComponents ..
  | zero t =>
    cases h
    exact unpackSign_packComponents ..
  | finite t m e hm =>
    cases h
    simp only [UnpackedFloat.pack]
    split_ifs <;> exact unpackSign_packComponents ..

theorem sign?_unpack_pack {u : UnpackedFloat} {s : Sign} (h : sign? u = some s) :
    ∀ t ∈ sign? (UnpackedFloat.unpack f (UnpackedFloat.pack f u)), t = s := by
  intro t ht
  rw [sign?_unpack _ t ht,unpackSign_pack h,ofBitVec_toBitVec]

theorem sign?_roundWithAccuracy (s : Sign) (m : Nat) (e : Int) (a : Accuracy) :
    sign? (roundWithAccuracy f s m e a) = some s := by
  simp only [roundWithAccuracy]
  split <;> rfl

theorem sign?_ofScientific (m : Nat) (e : Int) :
    sign? (UnpackedFloat.ofScientific f m e) = some .positive := by
  simp only [UnpackedFloat.ofScientific]
  split_ifs
  · rfl
  · rfl
  · rfl
  · exact sign?_roundWithAccuracy ..
  · exact sign?_roundWithAccuracy ..

end Mensura.Numeric

namespace Mensura.Scalar
open Float.Model UnpackedFloat Numeric

theorem isNegative_eq_false_of_sign? {x : Float} (h : ∀ s ∈ sign? (unpack x), s = .positive) :
    isNegative x = false := by
  unfold isNegative
  cases hu : unpack x <;> simp_all [sign?]

theorem isNegative_ofDecimal (m : Nat) (e : Int) : isNegative (ofDecimal m e : Float) = false :=
  isNegative_eq_false_of_sign? (sign?_unpack_pack (sign?_ofScientific m e))

end Mensura.Scalar
