import Mensura.Proofs.Numeric.Width

/-! Rounding gives the nearest number of a format. The bits that are shifted out of a mantissa leave
behind whether they are less or more than a half, so the rounded mantissa is the nearest integer.
All numbers of the format that are near enough are integers on this scale, whether they have the
same exponent or a greater one. -/
namespace Mensura.Numeric
open Float.Model UnpackedFloat

variable {f : Format}

/-- A mantissa, a bit for the half and a bit for the rest stand for a number. -/
inductive Represents : ExtendedMantissa → ℚ → Prop
  | exact (m : ℕ) : Represents ⟨m,false,false⟩ m
  | below {m : ℕ} {x : ℚ} (h : m < x) (h' : x < m + 1 / 2) : Represents ⟨m,false,true⟩ x
  | half (m : ℕ) : Represents ⟨m,true,false⟩ (m + 1 / 2)
  | above {m : ℕ} {x : ℚ} (h : m + 1 / 2 < x) (h' : x < m + 1) : Represents ⟨m,true,true⟩ x

theorem Represents.bounds {em : ExtendedMantissa} {x : ℚ} (h : Represents em x) :
    em.mantissa ≤ x ∧ x < em.mantissa + 1 ∧
      ((em.roundBit || em.stickyBit) = false → x = em.mantissa) ∧
      ((em.roundBit || em.stickyBit) = true → (em.mantissa : ℚ) < x) := by
  cases h with
  | exact m => simp
  | @below m x h h' => exact ⟨h.le,by linarith,by simp,fun _ => h⟩
  | half m => norm_num
  | @above m x h h' => exact ⟨by linarith,h',by simp,fun _ => by linarith⟩

/-- The last bit of the mantissa becomes the half, and both others become the rest. -/
theorem Represents.shiftRightOne {em : ExtendedMantissa} {x : ℚ} (h : Represents em x) :
    Represents em.shiftRightOne (x / 2) := by
  obtain ⟨hle,hlt,hnone,hsome⟩ := h.bounds
  obtain ⟨k,hk⟩ := em.mantissa.even_or_odd'
  cases hrest : em.roundBit || em.stickyBit with
  | false =>
    rw [hnone hrest]
    rcases hk with hk | hk
    · have hshift : em.shiftRightOne = ⟨k,false,false⟩ := by
        simp [ExtendedMantissa.shiftRightOne,hrest,hk]
      have hhalf : (em.mantissa : ℚ) / 2 = k := by simp [hk]
      rw [hshift,hhalf]
      exact .exact k
    · have hshift : em.shiftRightOne = ⟨k,true,false⟩ := by
        simp [ExtendedMantissa.shiftRightOne,hrest,hk]
        omega
      have hhalf : (em.mantissa : ℚ) / 2 = k + 1 / 2 := by
        rw [hk]
        push_cast
        ring
      rw [hshift,hhalf]
      exact .half k
  | true =>
    have hlow := hsome hrest
    rcases hk with hk | hk
    · have hshift : em.shiftRightOne = ⟨k,false,true⟩ := by
        simp [ExtendedMantissa.shiftRightOne,hrest,hk]
      rw [hk] at hlow hlt
      push_cast at hlow hlt
      rw [hshift]
      exact .below (by linarith) (by linarith)
    · have hshift : em.shiftRightOne = ⟨k,true,true⟩ := by
        simp [ExtendedMantissa.shiftRightOne,hrest,hk]
        omega
      rw [hk] at hlow hlt
      push_cast at hlow hlt
      rw [hshift]
      exact .above (by linarith) (by linarith)

theorem Represents.shiftRight {em : ExtendedMantissa} {x : ℚ} (h : Represents em x) (k : ℕ) :
    Represents (em >>> k) (x / 2 ^ k) := by
  change Represents (Nat.repeat ExtendedMantissa.shiftRightOne k em) _
  induction k with
  | zero => simpa [Nat.repeat] using h
  | succ k ih =>
    rw [pow_succ,← div_div]
    exact ih.shiftRightOne

/-- No integer is nearer, and of two that are as near it is the even one. -/
structure IsNearest (x : ℚ) (n : ℕ) : Prop where
  abs_sub_le_half : |x - n| ≤ 1 / 2
  even_of_half : |x - n| = 1 / 2 → Even n

theorem Represents.isNearest {em : ExtendedMantissa} {x : ℚ} (h : Represents em x) :
    IsNearest x em.roundedMantissa := by
  cases h with
  | exact m =>
    refine ⟨?_,?_⟩ <;> norm_num [ExtendedMantissa.roundedMantissa,ExtendedMantissa.accuracy,
      Accuracy.roundToNearestEven]
  | @below m x h h' =>
    change IsNearest x m
    rw [← sub_pos] at h
    refine ⟨?_,?_⟩ <;> rw [abs_of_pos h]
    · linarith
    · intro heq
      linarith
  | half m =>
    change IsNearest _ (m + m % 2)
    rcases Nat.mod_two_eq_zero_or_one m with hm | hm
    · rw [hm,add_zero]
      refine ⟨by simp,fun _ => Nat.even_iff.mpr hm⟩
    · rw [hm]
      refine ⟨?_,fun _ => Nat.even_iff.mpr (by omega)⟩
      push_cast
      norm_num [abs_le]
  | @above m x h h' =>
    change IsNearest x (m + 1)
    have hneg : x - (m + 1 : ℕ) < 0 := by
      push_cast
      linarith
    refine ⟨?_,?_⟩ <;> rw [abs_of_neg hneg] <;> push_cast
    · linarith
    · intro heq
      linarith

theorem IsNearest.le_abs_sub {x : ℚ} {n : ℕ} (h : IsNearest x n) (k : ℤ) :
    |x - n| ≤ |x - k| := by
  by_cases hk : k = n
  · simp [hk]
  · have hone : (1 : ℚ) ≤ |(k : ℚ) - n| := by
      have : 1 ≤ |k - n| := Int.one_le_abs (sub_ne_zero.mpr hk)
      exact_mod_cast this
    have htriangle : |(k : ℚ) - n| ≤ |x - k| + |x - n| := by
      calc |(k : ℚ) - n| = |(x - n) - (x - k)| := by ring_nf
        _ ≤ |x - n| + |x - k| := abs_sub _ _
        _ = |x - k| + |x - n| := add_comm ..
    have := h.abs_sub_le_half
    linarith

/-- An integer that is not above the number is not above the nearest one either. -/
theorem IsNearest.le_of_le {x : ℚ} {n : ℕ} (h : IsNearest x n) {k : ℕ} (hk : (k : ℚ) ≤ x) :
    k ≤ n := by
  by_contra hlt
  have hle : (n : ℚ) + 1 ≤ k := by exact_mod_cast Nat.lt_of_not_le hlt
  have := (abs_le.mp h.abs_sub_le_half).2
  linarith

theorem IsNearest.le_of_lt {x : ℚ} {n : ℕ} (h : IsNearest x n) {k : ℕ} (hk : x < k) : n ≤ k := by
  by_contra hlt
  have hle : (k : ℚ) + 1 ≤ n := by exact_mod_cast Nat.lt_of_not_le hlt
  have := (abs_le.mp h.abs_sub_le_half).1
  linarith

theorem mantissaBits_cast (f : Format) :
    (f.mantissaBits : ℤ) = 1 + f.mantissaBitsWithoutImplicit := by
  simp [Format.mantissaBits]

/-- The total exponent is that of the next power of two. -/
theorem two_zpow_totalExponent {m : ℕ} (hm : 0 < m) (e : ℤ) :
    (2 : ℚ) ^ (totalExponent m e - 1) ≤ m * 2 ^ e ∧ (m : ℚ) * 2 ^ e < 2 ^ totalExponent m e := by
  obtain ⟨hleast,hmost⟩ := (Nat.log2_eq_iff hm.ne').mp rfl
  have hpos : (0 : ℚ) < 2 ^ e := by positivity
  have hleast' : (2 : ℚ) ^ m.log2 ≤ m := by exact_mod_cast hleast
  have hmost' : (m : ℚ) < 2 ^ (m.log2 + 1) := by exact_mod_cast hmost
  constructor
  · have hsplit : totalExponent m e - 1 = (m.log2 : ℤ) + e := by
      simp only [totalExponent]
      ring
    rw [hsplit,zpow_add₀ two_ne_zero,zpow_natCast]
    exact mul_le_mul_of_nonneg_right hleast' hpos.le
  · have hsplit : totalExponent m e = ((m.log2 + 1 : ℕ) : ℤ) + e := by
      simp only [totalExponent]
      push_cast
      ring
    rw [hsplit,zpow_add₀ two_ne_zero,zpow_natCast]
    exact mul_lt_mul_of_pos_right hmost' hpos

/-- The exponent that rounding aims at. -/
def aim (f : Format) (m : ℕ) (e : ℤ) : ℤ := f.targetExponent (totalExponent m e)

theorem minExponent_le_aim (m : ℕ) (e : ℤ) : f.minExponent ≤ aim f m e := le_max_right _ _

/-- The number has at most as many digits on this scale as a mantissa. -/
theorem div_aim_lt {m : ℕ} (hm : 0 < m) (e : ℤ) :
    (m : ℚ) * 2 ^ e / 2 ^ aim f m e < (2 ^ f.mantissaBits : ℕ) := by
  have hle : totalExponent m e ≤ f.mantissaBits + aim f m e := by
    have : totalExponent m e - f.mantissaBits ≤ aim f m e := le_max_left _ _
    omega
  rw [div_lt_iff₀ (by positivity)]
  calc (m : ℚ) * 2 ^ e < 2 ^ totalExponent m e := (two_zpow_totalExponent hm e).2
    _ ≤ 2 ^ (f.mantissaBits + aim f m e : ℤ) := zpow_le_zpow_right₀ one_le_two hle
    _ = (2 ^ f.mantissaBits : ℕ) * 2 ^ aim f m e := by
      rw [zpow_add₀ two_ne_zero,zpow_natCast]
      push_cast
      rfl

/-- It has exactly as many unless the exponent is the least one. -/
theorem le_div_aim {m : ℕ} (hm : 0 < m) {e : ℤ} (h : f.minExponent < aim f m e) :
    ((2 ^ f.mantissaBitsWithoutImplicit : ℕ) : ℚ) ≤ m * 2 ^ e / 2 ^ aim f m e := by
  have heq : aim f m e = totalExponent m e - f.mantissaBits := by
    have hmax : aim f m e = max (totalExponent m e - f.mantissaBits) f.minExponent := rfl
    omega
  have hbits := mantissaBits_cast f
  rw [le_div_iff₀ (by positivity)]
  calc ((2 ^ f.mantissaBitsWithoutImplicit : ℕ) : ℚ) * 2 ^ aim f m e
      = 2 ^ (totalExponent m e - 1) := by
        push_cast
        rw [← zpow_natCast,← zpow_add₀ two_ne_zero]
        congr 1
        omega
    _ ≤ m * 2 ^ e := (two_zpow_totalExponent hm e).1

theorem represents_shiftToTargetExponent {m : ℕ} {e : ℤ} (h : e ≤ aim f m e) :
    (shiftToTargetExponent f m e .exact).2 = aim f m e ∧
      Represents (shiftToTargetExponent f m e .exact).1 (m * 2 ^ e / 2 ^ aim f m e) := by
  obtain ⟨k,hk⟩ := Int.le.dest h
  have hshift : (aim f m e - e).toNat = k := by omega
  change e + ((aim f m e - e).toNat : ℤ) = aim f m e ∧
    Represents ((⟨m,false,false⟩ : ExtendedMantissa) >>> (aim f m e - e).toNat) _
  have hscale : (m : ℚ) * 2 ^ e / 2 ^ aim f m e = m / 2 ^ k := by
    rw [← hk,zpow_add₀ two_ne_zero,zpow_natCast]
    field_simp
  rw [hshift,hscale]
  exact ⟨hk,(Represents.exact m).shiftRight k⟩

/-- A mantissa of all ones may be rounded to the next power of two, which has one bit more. -/
theorem exists_isCanonical {n : ℕ} {t : ℤ} (hn : 0 < n) (ht : f.minExponent ≤ t)
    (hmost : n ≤ 2 ^ f.mantissaBits)
    (hleast : f.minExponent < t → 2 ^ f.mantissaBitsWithoutImplicit ≤ n) :
    ∃ (k j : ℕ), 0 < k ∧ n = k * 2 ^ j ∧ IsCanonical f k (t + j) := by
  have hbits := mantissaBits_cast f
  rcases hmost.lt_or_eq with hlt | rfl
  · refine ⟨n,0,hn,by simp,?_⟩
    have hlog : n.log2 < f.mantissaBits := (Nat.log2_lt hn.ne').mpr hlt
    simp only [IsCanonical,Format.targetExponent,totalExponent]
    rcases ht.lt_or_eq with ht | rfl
    · have hlog' : f.mantissaBitsWithoutImplicit ≤ n.log2 :=
        (Nat.le_log2 hn.ne').mpr (hleast ht)
      omega
    · omega
  · refine ⟨2 ^ f.mantissaBitsWithoutImplicit,1,by positivity,?_,?_⟩
    · rw [← pow_add,Format.mantissaBits,Nat.add_comm]
    · simp only [IsCanonical,Format.targetExponent,totalExponent,Nat.log2_two_pow]
      omega

/-- What a number is rounded to: an integer on the scale of its exponent. -/
inductive RoundsTo (f : Format) (s : Sign) (n : ℕ) (t : ℤ) : UnpackedFloat → Prop
  | zero (hn : n = 0) : RoundsTo f s n t (.zero s)
  | finite {k : ℕ} {c : ℤ} (hk : 0 < k) (hcanonical : IsCanonical f k c)
      (heq : (k : ℚ) * 2 ^ c = n * 2 ^ t) : RoundsTo f s n t (.finite s k c hk)

theorem shiftToTargetExponent_zero (t : ℤ) :
    (shiftToTargetExponent f 0 t .exact).1.mantissa = 0 := by
  have h := shiftRight_mul_two_pow 0 (f.targetExponent (totalExponent 0 t) - t).toNat
  rw [Nat.zero_mul] at h
  exact congrArg ExtendedMantissa.mantissa h

theorem exists_roundWithAccuracy (s : Sign) {m : ℕ} {e : ℤ} (hm : 0 < m) (h : e ≤ aim f m e) :
    ∃ n, IsNearest (m * 2 ^ e / 2 ^ aim f m e) n ∧
      RoundsTo f s n (aim f m e) (roundWithAccuracy f s m e .exact) := by
  obtain ⟨hscale,hrepresents⟩ := represents_shiftToTargetExponent h
  have hnearest := hrepresents.isNearest
  refine ⟨_,hnearest,?_⟩
  simp only [roundWithAccuracy,hscale]
  generalize (shiftToTargetExponent f m e .exact).1.roundedMantissa = n at hnearest
  rcases Nat.eq_zero_or_pos n with rfl | hn
  · rw [dif_pos (shiftToTargetExponent_zero _)]
    exact .zero rfl
  -- the second shift takes back the bit that rounding up may have added
  · obtain ⟨k,j,hk,rfl,hcanonical⟩ := exists_isCanonical hn (minExponent_le_aim m e)
      (hnearest.le_of_lt (div_aim_lt hm e)) fun ht => hnearest.le_of_le (le_div_aim hm ht)
    have hshift := shiftToTargetExponent_mul_two_pow hk hcanonical j
    rw [add_sub_cancel_right] at hshift
    simp only [hshift]
    rw [dif_neg hk.ne']
    refine .finite hk hcanonical ?_
    rw [zpow_add₀ two_ne_zero,zpow_natCast]
    push_cast
    ring

/-- If there are too few bits, zeros are appended first. -/
theorem exists_round (f : Format) (s : Sign) {m : ℕ} (hm : 0 < m) (e : ℤ) :
    ∃ n, IsNearest (m * 2 ^ e / 2 ^ aim f m e) n ∧
      RoundsTo f s n (aim f m e) (UnpackedFloat.round f s m e) := by
  change ∃ n, _ ∧ RoundsTo f s n _ (roundWithAccuracy f s (m <<< (e - aim f m e).toNat)
    (e - (e - aim f m e).toNat) .exact)
  generalize hj : (e - aim f m e).toNat = j
  have haim : aim f (m * 2 ^ j) (e - j) = aim f m e := by
    simp only [aim,totalExponent_mul_two_pow hm]
  have hvalue : ((m * 2 ^ j : ℕ) : ℚ) * 2 ^ (e - j : ℤ) = m * 2 ^ e := by
    rw [zpow_sub₀ two_ne_zero,zpow_natCast]
    push_cast
    field_simp
  have hround := exists_roundWithAccuracy s (Nat.mul_pos hm (Nat.two_pow_pos j))
    (f := f) (e := e - j) (by omega)
  rwa [haim,hvalue,← Nat.shiftLeft_eq] at hround

/-- The rational value; what is not finite has none that matters. -/
def toRat : UnpackedFloat → ℚ
  | .finite s m e _ => (s.apply m : ℤ) * 2 ^ e
  | .notANumber | .infinity _ | .zero _ => 0

/-- A number of the format, were it not for a greatest exponent. -/
def OnGrid (f : Format) (y : ℚ) : Prop :=
  ∃ k c : ℤ, |k| ≤ 2 ^ f.mantissaBits ∧ f.minExponent ≤ c ∧ y = k * 2 ^ c

theorem OnGrid.neg {y : ℚ} (h : OnGrid f y) : OnGrid f (-y) := by
  obtain ⟨k,c,hk,hc,rfl⟩ := h
  exact ⟨-k,c,by rwa [abs_neg],hc,by push_cast; ring⟩

theorem onGrid_zero : OnGrid f 0 := ⟨0,f.minExponent,by simp,le_rfl,by simp⟩

theorem abs_apply (s : Sign) (m : ℤ) : |s.apply m| = |m| := by
  cases s
  · exact abs_neg m
  · rfl

/-- A canonical mantissa is not too long. -/
theorem IsCanonical.log2_lt {m : ℕ} {e : ℤ} (h : IsCanonical f m e) :
    m.log2 < f.mantissaBits := by
  have hle : totalExponent m e - f.mantissaBits ≤ e := by
    rw [IsCanonical,Format.targetExponent] at h
    omega
  simp only [totalExponent] at hle
  omega

theorem IsCanonical.minExponent_le {m : ℕ} {e : ℤ} (h : IsCanonical f m e) :
    f.minExponent ≤ e := by
  rw [IsCanonical,Format.targetExponent] at h
  omega

theorem onGrid_toRat_unpack (b : BitVec f.numBits) :
    OnGrid f (toRat (UnpackedFloat.unpack f b)) := by
  cases h : UnpackedFloat.unpack f b with
  | finite s m e hm =>
    have hcanonical := isCanonical_of_unpack h
    refine ⟨s.apply m,e,?_,hcanonical.minExponent_le,rfl⟩
    have hlong := ((Nat.log2_lt hm.ne').mp hcanonical.log2_lt).le
    rw [abs_apply,Nat.abs_cast]
    exact_mod_cast hlong
  | notANumber | infinity | zero => exact onGrid_zero

/-- The nearest integer is nearest on any scale. -/
theorem IsNearest.le_abs_sub_mul {x t : ℚ} (ht : 0 < t) {n : ℕ} (h : IsNearest (x / t) n)
    (k : ℤ) : |x - n * t| ≤ |x - k * t| := by
  have hscale : ∀ y : ℚ, |x - y * t| = |x / t - y| * t := fun y => by
    rw [← abs_of_pos ht,← abs_mul,abs_of_pos ht,sub_mul,div_mul_cancel₀ x ht.ne']
  rw [hscale,hscale]
  exact mul_le_mul_of_nonneg_right (h.le_abs_sub k) ht.le

/-- A number of the same or of a greater exponent is an integer on this scale. Any other is nearer
to zero than the least integer with a leading bit. -/
theorem IsNearest.le_abs_sub_of_onGrid {m : ℕ} (hm : 0 < m) {e : ℤ} {n : ℕ}
    (h : IsNearest (m * 2 ^ e / 2 ^ aim f m e) n) {y : ℚ} (hy : OnGrid f y) :
    |(m : ℚ) * 2 ^ e - n * 2 ^ aim f m e| ≤ |(m : ℚ) * 2 ^ e - y| := by
  obtain ⟨k,c,hk,hc,rfl⟩ := hy
  have hpos : (0 : ℚ) < 2 ^ aim f m e := by positivity
  rcases le_or_gt (aim f m e) c with hle | hlt
  · obtain ⟨j,rfl⟩ := Int.le.dest hle
    have hy : (k : ℚ) * 2 ^ (aim f m e + j) = (k * 2 ^ j : ℤ) * 2 ^ aim f m e := by
      rw [zpow_add₀ two_ne_zero,zpow_natCast]
      push_cast
      ring
    rw [hy]
    exact h.le_abs_sub_mul hpos _
  · -- the exponent aimed at is not the least one, so the number has a leading bit
    have hleast := (le_div_iff₀ hpos).mp (le_div_aim hm (hc.trans_lt hlt))
    have hgrid := h.le_abs_sub_mul hpos (2 ^ f.mantissaBitsWithoutImplicit : ℕ)
    rw [Int.cast_natCast,abs_of_nonneg (sub_nonneg.mpr hleast)] at hgrid
    have hy : |(k : ℚ) * 2 ^ c| ≤ (2 ^ f.mantissaBitsWithoutImplicit : ℕ) * 2 ^ aim f m e := by
      have hk' : |(k : ℚ)| ≤ 2 ^ f.mantissaBits := by exact_mod_cast hk
      have hscale : (0 : ℚ) < 2 ^ c := by positivity
      rw [abs_mul,abs_of_pos hscale]
      calc |(k : ℚ)| * 2 ^ c ≤ 2 ^ f.mantissaBits * 2 ^ (aim f m e - 1) :=
            mul_le_mul hk' (zpow_le_zpow_right₀ one_le_two (by omega)) (by positivity)
              (by positivity)
        _ = (2 ^ f.mantissaBitsWithoutImplicit : ℕ) * 2 ^ aim f m e := by
          rw [Format.mantissaBits,pow_add,zpow_sub_one₀ two_ne_zero]
          push_cast
          ring
    have htriangle := le_abs_self ((m : ℚ) * 2 ^ e - k * 2 ^ c)
    have := le_abs_self ((k : ℚ) * 2 ^ c)
    linarith

theorem toRat_finite (s : Sign) {m : ℕ} {e : ℤ} (hm : 0 < m) :
    toRat (.finite s m e hm) = (s.apply 1 : ℤ) * (m * 2 ^ e) := by
  cases s <;> simp [toRat,Sign.apply]

theorem RoundsTo.toRat_eq {s : Sign} {n : ℕ} {t : ℤ} {u : UnpackedFloat}
    (h : RoundsTo f s n t u) : toRat u = (s.apply 1 : ℤ) * (n * 2 ^ t) := by
  cases h with
  | zero hn => simp [toRat,hn]
  | finite hk _ heq => rw [toRat_finite,heq]

/-- Rounding finds a number of the format that none is nearer than. -/
theorem abs_sub_round_le (f : Format) (s : Sign) {m : ℕ} (hm : 0 < m) (e : ℤ) {y : ℚ}
    (hy : OnGrid f y) : |toRat (.finite s m e hm) - toRat (UnpackedFloat.round f s m e)| ≤
      |toRat (.finite s m e hm) - y| := by
  obtain ⟨n,hn,hround⟩ := exists_round f s hm e
  rw [hround.toRat_eq,toRat_finite]
  cases s with
  | positive => simpa [Sign.apply] using hn.le_abs_sub_of_onGrid hm hy
  | negative =>
    have h := hn.le_abs_sub_of_onGrid hm hy.neg
    have hflip : ∀ b : ℚ, |((-1 : ℤ) : ℚ) * (m * 2 ^ e) - b| = |(m : ℚ) * 2 ^ e - -b| := by
      intro b
      rw [← abs_neg]
      push_cast
      ring_nf
    simp only [Sign.apply,hflip]
    simpa using h

end Mensura.Numeric
