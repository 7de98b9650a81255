import Mensura.Proofs.Numeric.Rounding
import Mensura.Quantity

/-! Rounding at the upper end of a format. A rounded number can be packed without loss unless its
exponent is too large, and then it becomes infinite. This happens from halfway between the greatest
number and the next power of two on, for a tie is rounded to the even mantissa. -/
namespace Mensura.Numeric
open Float.Model UnpackedFloat

variable {f : Format}

/-- The exponent of the greatest number. -/
def greatestExponent (f : Format) : ℤ :=
  2 ^ f.exponentBits - 2 - f.exponentBias - f.mantissaBitsWithoutImplicit

/-- Halfway from the greatest number to what would come next. -/
def overflowBound (f : Format) : ℚ := (2 ^ f.mantissaBits - 1 / 2) * 2 ^ greatestExponent f

theorem minExponent_lt_greatestExponent (hf : 1 < f.exponentBits) :
    f.minExponent < greatestExponent f := by
  have hbias := exponentBias_cast f
  have hbits := mantissaBits_cast f
  have hpow : (2 : ℤ) ^ 2 ≤ 2 ^ f.exponentBits := pow_le_pow_right₀ (by decide) hf
  simp only [greatestExponent]
  omega

theorem zero_ne_allOnes (f : Format) : 0#f.exponentBits ≠ -1#f.exponentBits := by
  intro h
  have hpow : 2 ^ 1 ≤ 2 ^ f.exponentBits := Nat.pow_le_pow_right (by decide) f.he
  have := congrArg BitVec.toNat h
  rw [BitVec.neg_one_eq_allOnes,BitVec.toNat_allOnes,BitVec.toNat_ofNat,Nat.zero_mod] at this
  omega

@[simp] theorem unpack_pack_zero (s : Sign) :
    UnpackedFloat.unpack f (UnpackedFloat.pack f (.zero s)) = .zero s := by
  change UnpackedFloat.unpack f (packComponents f s 0#_ 0#_) = _
  simp only [UnpackedFloat.unpack,unpackExponent_packComponents,unpackMantissa_packComponents,
    unpackSign_packComponents,ofBitVec_toBitVec,zero_ne_allOnes,if_false,if_true,dite_true]

theorem unpack_packedInfinity (s : Sign) :
    UnpackedFloat.unpack f (packedInfinity f s) = .infinity s := by
  change UnpackedFloat.unpack f (packComponents f s (-1#_) 0#_) = _
  simp only [UnpackedFloat.unpack,unpackExponent_packComponents,unpackMantissa_packComponents,
    unpackSign_packComponents,ofBitVec_toBitVec,if_true]

theorem unpack_pack_of_greatestExponent_lt (s : Sign) {m : ℕ} {e : ℤ} (hm : 0 < m)
    (h : greatestExponent f < e) :
    UnpackedFloat.unpack f (UnpackedFloat.pack f (.finite s m e hm)) = .infinity s := by
  have hlarge : 2 ^ f.exponentBits ≤
      (e + f.exponentBias + f.mantissaBitsWithoutImplicit).toNat + 1 := by
    simp only [greatestExponent] at h
    zify
    omega
  simp only [UnpackedFloat.pack]
  rw [if_pos hlarge,unpack_packedInfinity]

/-- Without a leading bit, the exponent is the least one. -/
theorem unpack_pack_subnormal (hf : 1 < f.exponentBits) (s : Sign) {m : ℕ} (hm : 0 < m)
    (hlog : m.log2 < f.mantissaBitsWithoutImplicit) :
    UnpackedFloat.unpack f (UnpackedFloat.pack f (.finite s m f.minExponent hm)) =
      .finite s m f.minExponent hm := by
  have hbias := exponentBias_cast f
  have hbits := mantissaBits_cast f
  have hlt : m < 2 ^ f.mantissaBitsWithoutImplicit := (Nat.log2_lt hm.ne').mp hlog
  obtain ⟨v,rfl⟩ : ∃ v : BitVec f.mantissaBitsWithoutImplicit, v.toNat = m :=
    ⟨BitVec.ofNat _ m,by rw [BitVec.toNat_ofNat,Nat.mod_eq_of_lt hlt]⟩
  have hne : v ≠ 0#_ := by
    rintro rfl
    simp at hm
  rw [pack_subnormal hf s hm (by omega)]
  simp only [UnpackedFloat.unpack,unpackExponent_packComponents,unpackMantissa_packComponents,
    unpackSign_packComponents,ofBitVec_toBitVec,BitVec.toNat_ofNat,Nat.zero_mod,zero_ne_allOnes,
    hne,if_false,if_true,dite_false]
  congr 1
  omega

theorem IsCanonical.eq_minExponent {m : ℕ} {e : ℤ} (h : IsCanonical f m e)
    (hlog : m.log2 < f.mantissaBitsWithoutImplicit) : e = f.minExponent := by
  have hbits := mantissaBits_cast f
  simp only [IsCanonical,Format.targetExponent,totalExponent] at h
  omega

/-- Nothing is lost by packing a canonical number whose exponent is not too large. -/
theorem IsCanonical.unpack_pack (hf : 1 < f.exponentBits) (s : Sign) {m : ℕ} {e : ℤ} (hm : 0 < m)
    (h : IsCanonical f m e) (hmost : e ≤ greatestExponent f) :
    UnpackedFloat.unpack f (UnpackedFloat.pack f (.finite s m e hm)) = .finite s m e hm := by
  have hbias := exponentBias_cast f
  have hbits := mantissaBits_cast f
  have hlog := h.log2_lt
  have hleast := h.minExponent_le
  rcases Nat.lt_or_ge m.log2 f.mantissaBitsWithoutImplicit with hsub | hnormal
  · obtain rfl := h.eq_minExponent hsub
    exact unpack_pack_subnormal hf s hm hsub
  · simp only [greatestExponent] at hmost
    exact unpack_pack_normal s hm (by omega) (by omega) (by omega)

theorem two_mul_zpow_le {a b : ℤ} (h : a < b) : 2 * (2 : ℚ) ^ a ≤ 2 ^ b := by
  rw [mul_comm,← zpow_add_one₀ two_ne_zero]
  exact zpow_le_zpow_right₀ one_le_two h

/-- A canonical number is below the power of two after the greatest number exactly if its exponent
is not too large. -/
theorem IsCanonical.le_greatestExponent_iff (hf : 1 < f.exponentBits) {m : ℕ} {e : ℤ} (hm : 0 < m)
    (h : IsCanonical f m e) :
    e ≤ greatestExponent f ↔
      (m : ℚ) * 2 ^ e < 2 ^ f.mantissaBits * 2 ^ greatestExponent f := by
  constructor
  · intro hle
    have hlong : (m : ℚ) < 2 ^ f.mantissaBits := by
      exact_mod_cast (Nat.log2_lt hm.ne').mp h.log2_lt
    calc (m : ℚ) * 2 ^ e < 2 ^ f.mantissaBits * 2 ^ e :=
          mul_lt_mul_of_pos_right hlong (by positivity)
      _ ≤ 2 ^ f.mantissaBits * 2 ^ greatestExponent f :=
          mul_le_mul_of_nonneg_left (zpow_le_zpow_right₀ one_le_two hle) (by positivity)
  · intro hlt
    by_contra hgt
    have hlog : f.mantissaBitsWithoutImplicit ≤ m.log2 := by
      by_contra hsub
      have := h.eq_minExponent (by omega)
      have := minExponent_lt_greatestExponent hf
      omega
    have hlong : (2 : ℚ) ^ f.mantissaBitsWithoutImplicit ≤ m := by
      exact_mod_cast (Nat.le_log2 hm.ne').mp hlog
    have hle : (2 : ℚ) ^ f.mantissaBits * 2 ^ greatestExponent f ≤ m * 2 ^ e := by
      calc (2 : ℚ) ^ f.mantissaBits * 2 ^ greatestExponent f
          = 2 ^ f.mantissaBitsWithoutImplicit * (2 * 2 ^ greatestExponent f) := by
            rw [Format.mantissaBits,pow_add]
            ring
        _ ≤ 2 ^ f.mantissaBitsWithoutImplicit * 2 ^ e :=
            mul_le_mul_of_nonneg_left (two_mul_zpow_le (lt_of_not_ge hgt)) (by positivity)
        _ ≤ m * 2 ^ e := mul_le_mul_of_nonneg_right hlong (by positivity)
    linarith

/-- The half below an even integer is rounded up to it. -/
theorem IsNearest.lt_iff {x : ℚ} {n k : ℕ} (h : IsNearest x n) (hk : Even k) :
    n < k ↔ x < k - 1 / 2 := by
  obtain ⟨hlow,hhigh⟩ := abs_le.mp h.abs_sub_le_half
  constructor
  · intro hlt
    have hle : (n : ℚ) + 1 ≤ k := by exact_mod_cast hlt
    by_contra hge
    have hhalf : x - n = 1 / 2 := by linarith
    have heven := h.even_of_half (by rw [hhalf]; norm_num)
    have hnext : k = n + 1 := by
      have : (k : ℚ) = n + 1 := by linarith
      exact_mod_cast this
    rw [hnext] at hk
    exact Nat.not_even_iff_odd.mpr heven.add_one hk
  · intro hlt
    have hlt' : (n : ℚ) < k := by linarith
    exact_mod_cast hlt'

/-- The rounded number stays below the next power of two exactly if the number itself is below the
bound. Only with the greatest exponent does this depend on the mantissa. -/
theorem IsNearest.mul_lt_iff (hf : 1 < f.exponentBits) {m : ℕ} (hm : 0 < m) {e : ℤ} {n : ℕ}
    (h : IsNearest (m * 2 ^ e / 2 ^ aim f m e) n) :
    (n : ℚ) * 2 ^ aim f m e < 2 ^ f.mantissaBits * 2 ^ greatestExponent f ↔
      (m : ℚ) * 2 ^ e < overflowBound f := by
  have hpos : (0 : ℚ) < 2 ^ aim f m e := by positivity
  have hmost := div_aim_lt (f := f) hm e
  have hlong : (2 : ℚ) ^ f.mantissaBits = 2 * 2 ^ f.mantissaBitsWithoutImplicit := by
    rw [Format.mantissaBits,pow_add,pow_one]
  have hone : (1 : ℚ) ≤ 2 ^ f.mantissaBitsWithoutImplicit := one_le_pow₀ one_le_two
  rw [overflowBound]
  rcases lt_trichotomy (aim f m e) (greatestExponent f) with hlt | heq | hgt
  · have hscale := two_mul_zpow_le hlt
    have hn : (n : ℚ) ≤ 2 ^ f.mantissaBits := by exact_mod_cast h.le_of_lt hmost
    have hx := (div_lt_iff₀ hpos).mp hmost
    push_cast at hx
    constructor <;> intro _ <;> nlinarith
  · -- the mantissa after the greatest one is even, so a tie is rounded up to it
    have heven : Even (2 ^ f.mantissaBits) :=
      Nat.even_pow.mpr ⟨even_two,by simp [Format.mantissaBits]⟩
    have hiff := h.lt_iff heven
    rw [heq] at hiff hpos ⊢
    rw [mul_lt_mul_iff_left₀ hpos,← div_lt_iff₀ hpos]
    exact_mod_cast hiff
  · have hleast := le_div_aim hm ((minExponent_lt_greatestExponent hf).trans hgt)
    have hscale := two_mul_zpow_le hgt
    have hn : (2 : ℚ) ^ f.mantissaBitsWithoutImplicit ≤ n := by exact_mod_cast h.le_of_le hleast
    have hx := (le_div_iff₀ hpos).mp hleast
    push_cast at hx
    rw [hlong]
    constructor <;> intro _ <;> nlinarith

/-- Below the bound, the rounded number is one of the format. -/
theorem unpack_pack_round_of_lt (hf : 1 < f.exponentBits) (s : Sign) {m : ℕ} (hm : 0 < m) {e : ℤ}
    (h : (m : ℚ) * 2 ^ e < overflowBound f) :
    UnpackedFloat.unpack f (UnpackedFloat.pack f (UnpackedFloat.round f s m e)) =
      UnpackedFloat.round f s m e := by
  obtain ⟨n,hn,hround⟩ := exists_round f s hm e
  generalize UnpackedFloat.round f s m e = u at hround
  cases hround with
  | zero _ => exact unpack_pack_zero s
  | finite hk hcanonical heq =>
    have hlt := (hn.mul_lt_iff hf hm).mpr h
    rw [← heq,← hcanonical.le_greatestExponent_iff hf hk] at hlt
    exact hcanonical.unpack_pack hf s hk hlt

/-- From the bound on, it is infinite. -/
theorem unpack_pack_round_of_le (hf : 1 < f.exponentBits) (s : Sign) {m : ℕ} (hm : 0 < m) {e : ℤ}
    (h : overflowBound f ≤ (m : ℚ) * 2 ^ e) :
    UnpackedFloat.unpack f (UnpackedFloat.pack f (UnpackedFloat.round f s m e)) = .infinity s := by
  obtain ⟨n,hn,hround⟩ := exists_round f s hm e
  have hge := mt (hn.mul_lt_iff hf hm).mp h.not_gt
  generalize UnpackedFloat.round f s m e = u at hround
  cases hround with
  | zero hzero =>
    rw [hzero,Nat.cast_zero,zero_mul] at hge
    exact absurd (by positivity) hge
  | finite hk hcanonical heq =>
    rw [← heq,← hcanonical.le_greatestExponent_iff hf hk,not_le] at hge
    exact unpack_pack_of_greatestExponent_lt s hk hge

theorem overflowBound_binary32 : overflowBound .binary32 = 2 ^ 128 - 2 ^ 103 := by
  have hexponent : greatestExponent .binary32 = 104 := by decide
  have hbits : Format.mantissaBits .binary32 = 24 := by decide
  rw [overflowBound,hexponent,hbits]
  norm_num

end Mensura.Numeric

/-! Quantities in single width. Every component becomes the nearest number of single width, or an
infinity from halfway between the greatest such number and the next power of two on. Nothing is
refused. -/
namespace Mensura
open Float.Model UnpackedFloat

namespace Scalar
open Numeric

/-- The rational number that a finite one is. -/
def value {α : Type} [Scalar α] (x : α) : ℚ := toRat (unpack x)

/-- From here on, a number is out of the range of single width. -/
def singleBound : ℚ := 2 ^ 128 - 2 ^ 103

/-- The nearest number of single width if there is one, or an infinity of the same sign. -/
structure IsNarrowed (x : Float) (y : Float32) : Prop where
  isFinite : |value x| < singleBound → isFinite y = true
  nearest : |value x| < singleBound →
    ∀ z : Float32, Scalar.isFinite z = true → |value x - value y| ≤ |value x - value z|
  isInfinite : singleBound ≤ |value x| → isInfinite y = true
  isNegative : singleBound ≤ |value x| → isNegative y = Scalar.isNegative x

theorem onGrid_value (z : Float32) : OnGrid .binary32 (value z) := onGrid_toRat_unpack _

theorem unpack_ofFloat (x : Float) : unpack (ofFloat x : Float32) =
    UnpackedFloat.unpack .binary32 (UnpackedFloat.pack .binary32 (roundTo .binary32 (unpack x))) :=
  rfl

variable {x : Float} {s : Sign} {m : ℕ} {e : ℤ} {hm : 0 < m}

theorem unpack_ofFloat_of_zero (h : unpack x = .zero s) :
    unpack (ofFloat x : Float32) = .zero s := by
  rw [unpack_ofFloat,h]
  exact unpack_pack_zero s

theorem abs_value_of_finite (h : unpack x = .finite s m e hm) : |value x| = m * 2 ^ e := by
  have hpos : (0 : ℚ) < m * 2 ^ e := by positivity
  rw [value,h,toRat_finite]
  cases s <;> simp [Sign.apply,abs_of_pos hpos]

theorem unpack_ofFloat_of_lt (h : unpack x = .finite s m e hm) (hlt : |value x| < singleBound) :
    unpack (ofFloat x : Float32) = .round .binary32 s m e := by
  rw [abs_value_of_finite h,singleBound,← overflowBound_binary32] at hlt
  rw [unpack_ofFloat,h]
  exact unpack_pack_round_of_lt (by decide) s hm hlt

theorem unpack_ofFloat_of_le (h : unpack x = .finite s m e hm) (hle : singleBound ≤ |value x|) :
    unpack (ofFloat x : Float32) = .infinity s := by
  rw [abs_value_of_finite h,singleBound,← overflowBound_binary32] at hle
  rw [unpack_ofFloat,h]
  exact unpack_pack_round_of_le (by decide) s hm hle

theorem isFinite_of_unpack_eq_round {y : Float32} (hm : 0 < m)
    (h : unpack y = .round .binary32 s m e) : isFinite y = true := by
  obtain ⟨n,-,hround⟩ := exists_round .binary32 s hm e
  rw [← h] at hround
  generalize hu : unpack y = u at hround
  cases hround <;> simp [isFinite,isNaN,isInfinite,hu]

theorem isNarrowed_ofFloat (hx : isFinite x = true) : IsNarrowed x (ofFloat x) := by
  cases hu : unpack x with
  | notANumber => simp [isFinite,isNaN,hu] at hx
  | infinity s => simp [isFinite,isInfinite,hu] at hx
  | zero s =>
    have hnarrow := unpack_ofFloat_of_zero hu
    have hvalue : value x = 0 := by rw [value,hu]; rfl
    have hvalue' : value (ofFloat x : Float32) = 0 := by rw [value,hnarrow]; rfl
    have hsmall : |value x| < singleBound := by
      rw [hvalue,abs_zero,singleBound]
      norm_num
    refine ⟨fun _ => ?_,fun _ z _ => ?_,fun h => absurd hsmall h.not_gt,
      fun h => absurd hsmall h.not_gt⟩
    · simp [isFinite,isNaN,isInfinite,hnarrow]
    · rw [hvalue,hvalue',sub_self,abs_zero]
      exact abs_nonneg _
  | finite s m e hm =>
    refine ⟨fun hlt => ?_,fun hlt z _ => ?_,fun hle => ?_,fun hle => ?_⟩
    · exact isFinite_of_unpack_eq_round hm (unpack_ofFloat_of_lt hu hlt)
    · rw [value,value,hu,unpack_ofFloat_of_lt hu hlt]
      exact abs_sub_round_le .binary32 s hm e (onGrid_value z)
    · simp [isInfinite,unpack_ofFloat_of_le hu hle]
    · simp [isNegative,unpack_ofFloat_of_le hu hle,hu]

end Scalar

namespace Quantity
open Scalar (singleBound IsNarrowed)
variable {d : Dimension} {n : Nat} {α β : Type}

theorem mapM_eq_some_iff {f : α → Option β} {xs : List α} {ys : List β} :
    xs.mapM f = some ys ↔ List.Forall₂ (fun x y => f x = some y) xs ys := by
  induction xs generalizing ys with
  | nil => simp [eq_comm]
  | cons x xs ih =>
    simp only [List.mapM_cons,Option.bind_eq_bind,Option.bind_eq_some_iff,ih,
      List.forall₂_cons_left_iff]
    constructor
    · rintro ⟨y,hy,zs,hzs,hys⟩
      exact ⟨y,zs,hy,hzs,(Option.some.inj hys).symm⟩
    · rintro ⟨y,zs,hy,hzs,rfl⟩
      exact ⟨y,hy,zs,hzs,rfl⟩

theorem mapM_eq_some_iff_toList {v : Vector α n} {f : α → Option β} {w : Vector β n} :
    v.mapM f = some w ↔ v.toList.mapM f = some w.toList := by
  have harray : (v.mapM f).map Vector.toArray = (v.toList.mapM f).map List.toArray := by
    rw [← Option.map_eq_map,Vector.toArray_mapM,Array.mapM_eq_mapM_toList]
    rfl
  have hvector : Function.Injective (Vector.toArray : Vector β n → Array β) :=
    fun _ _ => Vector.toArray_inj.mp
  have hlist : Function.Injective (List.toArray : List β → Array β) :=
    fun _ _ => congrArg Array.toList
  have hsame : (some w).map Vector.toArray = (some w.toList).map List.toArray := rfl
  rw [← (Option.map_injective hvector).eq_iff,harray,hsame,(Option.map_injective hlist).eq_iff]

/-- Whatever the conversion is, one component without a counterpart is enough for there to be no
result, and otherwise the result has the counterparts. -/
theorem castWith?_eq_some_iff {convert : α → Option β} {q : Quantity d n α}
    {r : Quantity d n β} :
    q.castWith? convert = some r ↔ ∀ i (hi : i < n), convert q.value[i] = some r.value[i] := by
  obtain ⟨w⟩ := r
  have hcast : q.castWith? convert = some ⟨w⟩ ↔ q.value.mapM convert = some w := by
    simp [castWith?]
  rw [hcast,mapM_eq_some_iff_toList,mapM_eq_some_iff,List.forall₂_iff_get]
  simp

variable [Scalar α] [Scalar β]

theorem isFinite_iff {q : Quantity d n α} :
    q.isFinite = true ↔ ∀ i (h : i < n), Scalar.isFinite q.value[i] = true := Vector.all_eq_true

/-- A number always has a counterpart in the other width, so there is no component without one. -/
theorem cast?_eq (q : Quantity d n α) : (q.cast? : Option (Quantity d n β)) = some q.cast :=
  castWith?_eq_some_iff.mpr fun i hi => by simp [Scalar.convert?,cast,map]

/-- There is no result only if the conversion has none for one of the components, and that of
numbers always has one. Each component becomes the nearest number of single width, or an infinity
if it is out of range; only if none is, the result is finite. -/
theorem cast_never_fails (q : Quantity d n Float) (h : q.isFinite = true) :
    (∀ (convert : Float → Option Float32) (r : Quantity d n Float32),
      q.castWith? convert = some r ↔ ∀ i (hi : i < n), convert q.value[i] = some r.value[i]) ∧
    ∃ r : Quantity d n Float32, q.cast? = some r ∧
      (∀ i (hi : i < n), IsNarrowed q.value[i] r.value[i]) ∧
      (r.isFinite = true ↔ ∀ i (hi : i < n), |Scalar.value q.value[i]| < singleBound) := by
  let r : Quantity d n Float32 := q.cast
  have hnarrowed : ∀ i (hi : i < n), IsNarrowed q.value[i] r.value[i] := by
    intro i hi
    have hcomponent : r.value[i] = Scalar.ofFloat q.value[i] := by simp [r,cast,map]
    rw [hcomponent]
    exact Scalar.isNarrowed_ofFloat (isFinite_iff.mp h i hi)
  refine ⟨fun convert r => castWith?_eq_some_iff,r,q.cast?_eq,hnarrowed,?_⟩
  rw [isFinite_iff]
  constructor
  · intro hfinite i hi
    by_contra hge
    have hinfinite := (hnarrowed i hi).isInfinite (le_of_not_gt hge)
    have hfinite := hfinite i hi
    simp [Scalar.isFinite,hinfinite] at hfinite
  · exact fun hlt i hi => (hnarrowed i hi).isFinite (hlt i hi)

/-- Only one of the two components is out of range. -/
theorem cast_never_fails_of_mixed :
    let q : Quantity .length 2 Float := ⟨#v[0.1,-1e300]⟩
    q.isFinite = true ∧ ∃ r : Quantity .length 2 Float32, q.cast? = some r ∧
      Scalar.isFinite (r.axis 0).scalar = true ∧ Scalar.isInfinite (r.axis 1).scalar = true ∧
      Scalar.isNegative (r.axis 1).scalar = true := by
  intro q
  have hq : q.isFinite = true := by decide +kernel
  have hnear : |Scalar.value (q.axis 0).scalar| < singleBound := by decide +kernel
  have hfar : singleBound ≤ |Scalar.value (q.axis 1).scalar| := by decide +kernel
  have hsign : Scalar.isNegative (q.axis 1).scalar = true := by decide +kernel
  obtain ⟨-,r,hr,hnarrowed,-⟩ := cast_never_fails q hq
  clear_value q
  have hfirst : IsNarrowed (q.axis 0).scalar (r.axis 0).scalar := hnarrowed 0 (by decide)
  have hsecond : IsNarrowed (q.axis 1).scalar (r.axis 1).scalar := hnarrowed 1 (by decide)
  exact ⟨hq,r,hr,hfirst.isFinite hnear,hsecond.isInfinite hfar,
    (hsecond.isNegative hfar).trans hsign⟩

/-- A finite length without a finite counterpart in single width, which is not refused. -/
theorem narrowing_overflows :
    let q : Quantity .length 1 Float := .ofScalar 1e300
    q.isFinite = true ∧ ∃ r : Quantity .length 1 Float32, q.cast? = some r ∧
      r.isFinite = false ∧ Scalar.isInfinite r.scalar = true := by
  intro q
  exact ⟨by decide +kernel,_,q.cast?_eq,by decide +kernel,by decide +kernel⟩

end Quantity
end Mensura
