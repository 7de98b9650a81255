import Mathlib
import Mensura.Scalar

/-! Arithmetic that needs no rounding. Every number of a format is canonical: its exponent is the
one that rounding aims at. So rounding a number that is written with more bits than it needs gives
it back, and multiplying by one changes neither its value nor its bits. -/
namespace Mensura.Numeric
open Float.Model UnpackedFloat

variable {f : Format}

def IsCanonical (f : Format) (m : Nat) (e : Int) : Prop :=
  f.targetExponent (totalExponent m e) = e

theorem toBitVec_ofBitVec (v : BitVec 1) : (Sign.ofBitVec v).toBitVec = v := by
  revert v; decide

/-- Sign, exponent and mantissa make up all bits. -/
theorem packComponents_unpack (b : BitVec f.numBits) :
    packComponents f (Sign.ofBitVec (unpackSign b)) (unpackExponent b) (unpackMantissa b) = b := by
  have hm := f.hm
  have he := f.he
  apply BitVec.eq_of_getLsbD_eq
  intro i hi
  have hi : i < 1 + f.exponentBits + f.mantissaBitsWithoutImplicit := hi
  rw [packComponents,toBitVec_ofBitVec]
  simp only [BitVec.getLsbD_append,unpackSign,unpackExponent,unpackMantissa,BitVec.getLsbD_cast,
    BitVec.getLsbD_extractLsb]
  split_ifs <;> rw [decide_eq_true (by omega),Bool.true_and] <;> congr 1 <;> omega

theorem toNat_implicit_append {n : Nat} (v : BitVec n) : (1#1 ++ v).toNat = 2 ^ n + v.toNat := by
  rw [BitVec.toNat_append,← Nat.shiftLeft_add_eq_or_of_lt v.isLt,Nat.shiftLeft_eq]
  simp

theorem log2_implicit_append {n : Nat} (v : BitVec n) : (1#1 ++ v).toNat.log2 = n := by
  have hv := v.isLt
  rw [toNat_implicit_append,Nat.log2_eq_iff (by omega)]
  omega

/-- The bias, with the integers that the exponents are. -/
theorem exponentBias_cast (f : Format) :
    (f.exponentBias : Int) = 2 - f.minExponent - f.mantissaBits := by
  have hb : 1 ≤ 2 ^ (f.exponentBits - 1) := Nat.one_le_two_pow
  simp only [Format.exponentBias,Format.minExponent]
  push_cast [hb]
  omega

theorem isCanonical_of_unpack {b : BitVec f.numBits} {s : Sign} {m : Nat} {e : Int} {hm : 0 < m}
    (h : UnpackedFloat.unpack f b = .finite s m e hm) : IsCanonical f m e := by
  have hbias := exponentBias_cast f
  have hbits : (f.mantissaBits : Int) = 1 + f.mantissaBitsWithoutImplicit := by
    simp [Format.mantissaBits]
  simp only [UnpackedFloat.unpack] at h
  simp only [IsCanonical,Format.targetExponent,totalExponent]
  split at h
  · split at h <;> cases h
  · split at h
    · split at h
      · cases h
      · -- a number without a leading bit has the least exponent
        rename_i hexp hmant
        injection h with hs hm' he
        have hlt : m < 2 ^ f.mantissaBitsWithoutImplicit := hm' ▸ (unpackMantissa b).isLt
        have hlog : m.log2 < f.mantissaBitsWithoutImplicit := (Nat.log2_lt (by omega)).mpr hlt
        simp only [hexp,BitVec.toNat_ofNat,Nat.zero_mod] at he
        omega
    · rename_i hexp
      injection h with hs hm' he
      have hlog : m.log2 = f.mantissaBitsWithoutImplicit := hm' ▸ log2_implicit_append _
      have hpos : (unpackExponent b).toNat ≠ 0 := by
        intro hz
        exact hexp (BitVec.eq_of_toNat_eq (by simpa using hz))
      omega

/-- A mantissa without a leading bit is packed with the exponent zero. -/
theorem pack_subnormal (hf : 1 < f.exponentBits) (s : Sign)
    {v : BitVec f.mantissaBitsWithoutImplicit} (hv : 0 < v.toNat) {e : Int}
    (he : e = 1 - (f.exponentBias + f.mantissaBitsWithoutImplicit)) :
    UnpackedFloat.pack f (.finite s v.toNat e hv) = packComponents f s 0#f.exponentBits v := by
  have hbits : f.mantissaBits = 1 + f.mantissaBitsWithoutImplicit := rfl
  have hlog := (Nat.log2_lt hv.ne').mpr v.isLt
  have hpow : 2 ^ 2 ≤ 2 ^ f.exponentBits := Nat.pow_le_pow_right (by decide) hf
  have hbiased : (e + f.exponentBias + f.mantissaBitsWithoutImplicit).toNat = 1 := by omega
  simp only [UnpackedFloat.pack,hbiased]
  rw [if_neg (by omega),if_neg (by omega),BitVec.ofNat_toNat,BitVec.setWidth_eq]

/-- The leading bit is not kept. -/
theorem pack_normal (s : Sign) {x : BitVec f.exponentBits}
    (hx : x.toNat + 1 ≠ 2 ^ f.exponentBits) {v : BitVec f.mantissaBitsWithoutImplicit}
    (hv : 0 < (1#1 ++ v).toNat) {e : Int}
    (he : e = x.toNat - (f.exponentBias + f.mantissaBitsWithoutImplicit)) :
    UnpackedFloat.pack f (.finite s (1#1 ++ v).toNat e hv) = packComponents f s x v := by
  have hbits : f.mantissaBits = 1 + f.mantissaBitsWithoutImplicit := rfl
  have hlt := x.isLt
  have hbiased : (e + f.exponentBias + f.mantissaBitsWithoutImplicit).toNat = x.toNat := by omega
  have hmant : BitVec.ofNat f.mantissaBitsWithoutImplicit (1#1 ++ v).toNat = v := by
    apply BitVec.eq_of_toNat_eq
    rw [BitVec.toNat_ofNat,toNat_implicit_append,Nat.add_mod_left,Nat.mod_eq_of_lt v.isLt]
  simp only [UnpackedFloat.pack,hbiased,log2_implicit_append]
  rw [if_neg (by omega),if_pos (by omega),BitVec.ofNat_toNat,BitVec.setWidth_eq,hmant]

/-- Nothing is lost by unpacking. -/
theorem pack_unpack {b : BitVec f.numBits} (hf : 1 < f.exponentBits) (hb : f.Valid b) :
    UnpackedFloat.pack f (UnpackedFloat.unpack f b) = b := by
  have hcomp := packComponents_unpack b
  simp only [UnpackedFloat.unpack]
  split
  · rename_i hmax
    split
    · rename_i hmant
      rw [hmax,hmant] at hcomp
      exact hcomp
    · rename_i hmant
      exact (hb.eq_packedNaN hmax hmant).symm
  · rename_i hmax
    split
    · rename_i hexp
      split
      · rename_i hmant
        rw [hexp,hmant] at hcomp
        exact hcomp
      · rw [pack_subnormal hf,← hexp]
        · exact hcomp
        · simp only [hexp,BitVec.toNat_ofNat,Nat.zero_mod]
          omega
    · have hne : (unpackExponent b).toNat + 1 ≠ 2 ^ f.exponentBits := by
        intro hz
        refine hmax (BitVec.eq_of_toNat_eq ?_)
        rw [BitVec.neg_one_eq_allOnes,BitVec.toNat_allOnes]
        omega
      rw [pack_normal _ hne]
      · exact hcomp
      · rfl

open ExtendedMantissa in
/-- Bits that are zero are shifted out without a trace. -/
theorem shiftRight_mul_two_pow (m k : Nat) :
    (⟨m * 2 ^ k,false,false⟩ : ExtendedMantissa) >>> k = ⟨m,false,false⟩ := by
  change Nat.repeat shiftRightOne k _ = _
  induction k generalizing m with
  | zero => simp [Nat.repeat]
  | succ k ih =>
    have hm : m * 2 ^ (k + 1) = 2 * m * 2 ^ k := by
      rw [Nat.pow_succ]
      ac_rfl
    rw [Nat.repeat,hm,ih]
    simp [shiftRightOne]

theorem totalExponent_mul_two_pow {m : Nat} (hm : 0 < m) (k : Nat) (e : Int) :
    totalExponent (m * 2 ^ k) (e - k) = totalExponent m e := by
  have hlog : (m * 2 ^ k).log2 = m.log2 + k := by
    induction k with
    | zero => simp
    | succ k ih =>
      have hne : m * 2 ^ k ≠ 0 := Nat.ne_of_gt (Nat.mul_pos hm (Nat.two_pow_pos k))
      have hk : m * 2 ^ (k + 1) = 2 * (m * 2 ^ k) := by
        rw [Nat.pow_succ]
        ac_rfl
      rw [hk,Nat.log2_two_mul hne,ih,Nat.add_assoc]
  simp only [totalExponent,hlog]
  omega

theorem shiftToTargetExponent_mul_two_pow {m : Nat} {e : Int} (hm : 0 < m) (h : IsCanonical f m e)
    (k : Nat) : shiftToTargetExponent f (m * 2 ^ k) (e - k) .exact = (⟨m,false,false⟩,e) := by
  have hk : (e - (e - k)).toNat = k := by omega
  simp only [shiftToTargetExponent,shiftToExponent,totalExponent_mul_two_pow hm]
  rw [show f.targetExponent (totalExponent m e) = e from h,hk]
  refine Prod.ext (shiftRight_mul_two_pow m k) ?_
  show e - k + k = e
  omega

/-- A number that needs no rounding is not rounded. -/
theorem roundWithAccuracy_mul_two_pow {m : Nat} {e : Int} (hm : 0 < m) (h : IsCanonical f m e)
    (s : Sign) (k : Nat) :
    roundWithAccuracy f s (m * 2 ^ k) (e - k) .exact = .finite s m e hm := by
  have hfirst := shiftToTargetExponent_mul_two_pow hm h k
  have hsecond : shiftToTargetExponent f m e .exact = (⟨m,false,false⟩,e) := by
    simpa using shiftToTargetExponent_mul_two_pow hm h 0
  have hround : (⟨m,false,false⟩ : ExtendedMantissa).roundedMantissa = m := rfl
  simp only [roundWithAccuracy,hfirst,hround,hsecond]
  exact dif_neg (Nat.ne_of_gt hm)

end Mensura.Numeric

namespace Mensura.Scalar
open Float.Model UnpackedFloat Numeric

theorem unpack_one : (one : Float).toModel.unpack = .finite .positive (2 ^ 52) (-52) (by decide) :=
  rfl

theorem unpacked_one_mul (x : Float.Model) :
    UnpackedFloat.mul .binary64 (.finite .positive (2 ^ 52) (-52) (by decide)) x.unpack =
      x.unpack := by
  cases h : x.unpack with
  | notANumber => rfl
  | infinity s => cases s <;> rfl
  | zero s => cases s <;> rfl
  | finite s m e hm =>
    have hs : .positive * s = s := by cases s <;> rfl
    rw [UnpackedFloat.mul,hs,Nat.mul_comm,Int.add_comm]
    exact roundWithAccuracy_mul_two_pow hm (isCanonical_of_unpack h) s 52

theorem pack_unpack_model (x : Float.Model) : Float.Model.pack x.unpack = x := by
  obtain ⟨bits,hvalid⟩ := x
  simp only [Float.Model.pack,Float.Model.unpack,pack_unpack (by decide) hvalid]

/-- One is neutral, also to what is not finite. -/
@[simp] protected theorem one_mul (x : Float) : one * x = x := by
  calc one * x = .ofModel (.pack (.mul .binary64 (one : Float).toModel.unpack x.toModel.unpack)) :=
        rfl
    _ = .ofModel (.pack x.toModel.unpack) := by rw [unpack_one,unpacked_one_mul]
    _ = x := by rw [pack_unpack_model]

@[simp] theorem powInt_one_eq (x : Float) : powInt x 1 = x := by
  rw [powInt_one,Scalar.one_mul]

theorem timesPow_one (b : Nat) : timesPow one one b = (one : Float) := by
  induction b using Nat.strongRecOn with
  | ind b ih =>
    rw [timesPow]
    simp only [Scalar.one_mul,ite_self]
    split_ifs with hb
    · rfl
    · exact ih (b / 2) (by omega)

/-- Every power of one is one, also the negative ones. -/
@[simp] theorem one_powInt (n : Int) : powInt one n = (one : Float) := by
  have hinverse : (one / one : Float) = one := by decide +kernel
  simp only [powInt,timesPow_one,hinverse,ite_self]

end Mensura.Scalar
