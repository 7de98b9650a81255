import Mathlib.Data.List.Forall2
import Mensura.Dimension
import Mensura.Proofs.Dimension.Arithmetic
import Mensura.Proofs.Numeric.Exact
import Mensura.Proofs.Registry.Extension
import Mensura.Proofs.Signature.Joining
import Mensura.Proofs.Signature.Term
import Mensura.Proofs.Signature.Words

/-! The text of a dimension is a signature. Its words are the base quantities whose exponent is not
zero, each with the exponent in superscripts, and a reader finds these exponents again. -/
namespace Mensura

namespace Signature

/-- Words that are joined by dots are read one by one. -/
theorem read_intercalate {known : List Char → Bool} {ws : List (List Char)} {ts : List Term}
    (hne : ws ≠ []) (hws : ∀ w ∈ ws, w ≠ [] ∧ ∀ c ∈ w, isWordChar c = true)
    (h : List.Forall₂ (fun w t => readTerm known w = .ok t) ws ts) :
    read known (['·'].intercalate ws) = .ok ts := by
  induction h with
  | nil => exact absurd rfl hne
  | @cons w t ws ts hw h ih =>
    obtain ⟨⟨hwne,hwall⟩,hws⟩ := List.forall_mem_cons.mp hws
    have hfirst : read known w = .ok [t] := by
      rw [read_word hwne hwall,hw]
      rfl
    cases ws with
    | nil =>
      cases h
      rw [List.intercalate_singleton,hfirst]
    | cons v vs =>
      obtain ⟨hvne,hvall⟩ := hws v List.mem_cons_self
      have hend : Text.endsIn isWordChar w = true := by
        simpa using endsIn_word_append hwall hwne []
      have hstart : startsWord (['·'].intercalate (v::vs)) = true := by
        cases vs with
        | nil => simpa using startsWord_word_append hvne hvall []
        | cons u vs =>
          rw [List.intercalate_cons_cons,List.append_assoc]
          exact startsWord_word_append hvne hvall _
      have hjoint : IsJoint ['·'] ['·'] := ⟨by simp,[],[],rfl,by simp,by simp⟩
      rw [List.intercalate_cons_cons,read_times hend hstart hjoint (.inr (.inr rfl)),hfirst,
        ih (by simp) hws]
      rfl

end Signature

namespace Dimension

/-- A power of each base quantity whose exponent is not zero. -/
def terms (d : Dimension) : List Signature.Term :=
  [⟨['L'],d.L⟩,⟨['M'],d.M⟩,⟨['T'],d.T⟩,⟨['Θ'],d.Θ⟩,⟨['A'],d.A⟩].filter fun t => t.power ≠ 0

theorem terms_eq_map_factors (d : Dimension) :
    d.terms = d.factors.map fun f => ⟨[f.1],f.2⟩ := by
  show ((symbols.zip d.exponents).map fun f => (⟨[f.1],f.2⟩ : Signature.Term)).filter _ = _
  rw [List.filter_map]
  rfl

theorem factors_ne_nil {d : Dimension} (h : d ≠ dimensionless) : d.factors ≠ [] := by
  intro hnil
  have hzero : d.L = 0 ∧ d.M = 0 ∧ d.T = 0 ∧ d.Θ = 0 ∧ d.A = 0 := by
    simpa [factors,symbols,exponents,List.filter_eq_nil_iff] using hnil
  obtain ⟨hL,hM,hT,hΘ,hA⟩ := hzero
  exact h (Dimension.ext hL hM hT hΘ hA)

theorem mem_of_mem_factors {d : Dimension} {f : Char × Int} (h : f ∈ d.factors) :
    f.1 ∈ symbols ∧ f.2 ∈ d.exponents ∧ f.2 ≠ 0 := by
  obtain ⟨hzip,hne⟩ := List.mem_filter.mp h
  obtain ⟨hsymbol,hexponent⟩ := List.of_mem_zip hzip
  exact ⟨hsymbol,hexponent,by simpa using hne⟩

theorem plain_of_mem_symbols {c : Char} (h : c ∈ symbols) : Signature.isWordChar c = true ∧
    c ≠ '^' ∧ Text.isSuperscript c = false ∧ c.isDigit = false := by
  have hall : symbols.all (fun c => Signature.isWordChar c && c ≠ '^' && !Text.isSuperscript c &&
      !c.isDigit) = true := by decide
  simpa [and_assoc] using List.all_eq_true.mp hall c h

theorem factorText_of_ne_one {n : Int} (h : n ≠ 1) (c : Char) :
    factorText c n = [c] ++ Signature.superscript n := by
  rw [factorText,if_neg h]
  rfl

theorem isWordChar_of_mem_factorText {c : Char} (hc : c ∈ symbols) {n : Int} :
    ∀ a ∈ factorText c n, Signature.isWordChar a = true := by
  obtain ⟨hword,-⟩ := plain_of_mem_symbols hc
  by_cases hn : n = 1
  · subst hn
    simpa using hword
  · rw [factorText_of_ne_one hn]
    simp only [List.singleton_append,List.forall_mem_cons]
    exact ⟨hword,fun a ha => (Signature.isWordChar_of_mem_superscript ha).1⟩

theorem readTerm_factorText {known : List Char → Bool} {c : Char} (hc : c ∈ symbols) {n : Int}
    (hfits : fits n = true) (hzero : n ≠ 0) :
    Signature.readTerm known (factorText c n) = .ok ⟨[c],n⟩ := by
  obtain ⟨-,hcaret,hraised,hdigit⟩ := plain_of_mem_symbols hc
  have hmem : '^' ∉ [c] := by simpa using hcaret.symm
  by_cases hn : n = 1
  · subst hn
    exact Signature.readTerm_of_endsIn_eq_false (by simp) hmem hraised hdigit
  · rw [factorText_of_ne_one hn]
    exact Signature.readTerm_superscript (by simp) hmem hraised hfits hzero

/-- What is known has no part in it. -/
theorem read_text {d : Dimension} (hd : d.Fits) (hne : d ≠ dimensionless)
    (known : List Char → Bool) : Signature.read known d.text = .ok d.terms := by
  rw [text,if_neg hne,terms_eq_map_factors]
  refine Signature.read_intercalate (by simpa using factors_ne_nil hne) ?_ ?_
  · simp only [List.forall_mem_map]
    intro f hf
    exact ⟨List.cons_ne_nil _ _,isWordChar_of_mem_factorText (mem_of_mem_factors hf).1⟩
  · rw [List.forall₂_map_left_iff,List.forall₂_map_right_iff,List.forall₂_same]
    intro f hf
    obtain ⟨hsymbol,hexponent,hzero⟩ := mem_of_mem_factors hf
    exact readTerm_factorText hsymbol (hd f.2 hexponent) hzero

/-- No dimension but the neutral one is written as a number. -/
theorem text_ne_text_dimensionless {d : Dimension} (hd : d.Fits) (hne : d ≠ dimensionless) :
    d.text ≠ dimensionless.text := by
  intro h
  have hread := read_text hd hne fun _ => false
  have hnumber : Signature.read (fun _ => false) dimensionless.text =
      .error (.missingSymbol ['1']) := rfl
  rw [h,hnumber] at hread
  cases hread

end Dimension

/-! Registries in which the five base quantities are units themselves. There the text of a dimension
stands for that dimension, whatever else is registered, so no two dimensions have the same text. -/

open UnitPower

namespace UnitPower

/-- A power of zero does not change the product. -/
theorem totalDimension_filter (us : List UnitPower) :
    totalDimension (us.filter fun u => u.power ≠ 0) = totalDimension us := by
  induction us with
  | nil => rfl
  | cons u us ih =>
    by_cases hu : u.power = 0
    · have hone : u.dimension = .dimensionless := by rw [dimension,hu,Dimension.pow_zero]
      rw [List.filter_cons_of_neg (by simpa using hu),ih,totalDimension_cons,hone,
        Dimension.dimensionless_mul]
    · rw [List.filter_cons_of_pos (by simpa using hu),totalDimension_cons,totalDimension_cons,ih]

/-- Every product on the way is one of those that are met with the powers of zero. -/
theorem StaysInRange.filter {us : List UnitPower} (h : StaysInRange us) :
    StaysInRange (us.filter fun u => u.power ≠ 0) := by
  refine ⟨fun u hu => h.1 u (List.mem_of_mem_filter hu),fun k => ?_⟩
  obtain ⟨vs,hvs,hk⟩ := List.prefix_filter_iff.mp (List.take_prefix k _)
  rw [hk,totalDimension_filter,List.prefix_iff_eq_take.mp hvs]
  exact h.2 vs.length

theorem totalFactor_eq_one {us : List UnitPower}
    (h : ∀ u ∈ us, u.unit.conversion.factor = Scalar.one) : totalFactor us = Scalar.one := by
  have hfactor : ∀ u ∈ us, u.factor = Scalar.one := fun u hu => by
    rw [factor,h u hu,Scalar.one_powInt]
  rw [totalFactor,List.map_congr_left hfactor,List.map_const']
  induction us.length with
  | zero => rfl
  | succ n ih => rw [List.replicate_succ,List.foldl_cons,Scalar.one_mul,ih]

end UnitPower

def baseUnits : List Entry :=
  [⟨['L'],.length,.scale Scalar.one⟩,⟨['M'],.mass,.scale Scalar.one⟩,
    ⟨['T'],.time,.scale Scalar.one⟩,⟨['Θ'],.temperature,.scale Scalar.one⟩,
    ⟨['A'],.angle,.scale Scalar.one⟩]

/-- The base quantities are registered as the units that they are written as. -/
def Registry.HasBaseUnits (r : Registry) : Prop := ∀ e ∈ baseUnits, r.lookup e.symbol = some e

/-- Nothing else has to be registered. -/
theorem Registry.hasBaseUnits_baseUnits : (⟨baseUnits⟩ : Registry).HasBaseUnits := by
  simp only [HasBaseUnits,baseUnits,List.forall_mem_cons]
  exact ⟨rfl,rfl,rfl,rfl,rfl,by simp⟩

namespace Dimension

def basePowers (d : Dimension) : List UnitPower :=
  (baseUnits.zip d.exponents).map fun p => ⟨p.1,p.2⟩

theorem terms_eq_map_basePowers (d : Dimension) :
    d.terms = (d.basePowers.filter fun u => u.power ≠ 0).map fun u => ⟨u.unit.symbol,u.power⟩ := by
  show (d.basePowers.map fun u => (⟨u.unit.symbol,u.power⟩ : Signature.Term)).filter _ = _
  rw [List.filter_map]
  rfl

/-- The exponents appear one after the other. -/
theorem exponents_take_basePowers (d : Dimension) (k : Nat) :
    (totalDimension (d.basePowers.take k)).exponents =
      d.exponents.take k ++ List.replicate (5 - k) 0 := by
  obtain ⟨l,m,t,θ,a⟩ := d
  rcases k with _ | _ | _ | _ | _ | k
  all_goals simp [basePowers,baseUnits,exponents,dimension,length,mass,time,temperature,angle,
    dimensionless,mk_pow,mk_mul]

theorem totalDimension_basePowers (d : Dimension) : totalDimension d.basePowers = d := by
  have hall := exponents_take_basePowers d 5
  obtain ⟨l,m,t,θ,a⟩ := d
  cases h : totalDimension (basePowers ⟨l,m,t,θ,a⟩)
  rw [List.take_of_length_le (by rfl),h] at hall
  simpa [exponents] using hall

theorem mem_of_mem_basePowers {d : Dimension} {u : UnitPower} (h : u ∈ d.basePowers) :
    u.unit ∈ baseUnits ∧ u.power ∈ d.exponents := by
  obtain ⟨p,hp,rfl⟩ := List.mem_map.mp h
  exact List.of_mem_zip hp

theorem fits_pow_of_mem_baseUnits {e : Entry} (he : e ∈ baseUnits) {n : Int}
    (hn : fits n = true) : (e.dimension.pow n).Fits := by
  have hunit : ∀ e ∈ baseUnits, ∀ m ∈ e.dimension.exponents, m = 0 ∨ m = 1 := by decide
  rw [Fits,exponents_pow,List.forall_mem_map]
  intro m hm
  rcases hunit e he m hm with rfl | rfl
  · rw [Int.zero_mul]
    decide
  · rwa [Int.one_mul]

theorem staysInRange_basePowers {d : Dimension} (hd : d.Fits) : StaysInRange d.basePowers := by
  refine ⟨fun u hu => ?_,fun k n hn => ?_⟩
  · obtain ⟨hunit,hpower⟩ := mem_of_mem_basePowers hu
    exact fits_pow_of_mem_baseUnits hunit (hd u.power hpower)
  · rw [exponents_take_basePowers,List.mem_append] at hn
    rcases hn with hn | hn
    · exact hd n (List.mem_of_mem_take hn)
    · rw [List.eq_of_mem_replicate hn]
      decide

variable {r : Registry} {d : Dimension}

theorem yields_terms (hd : d.Fits) (hr : r.HasBaseUnits) :
    r.Yields d.terms ⟨d,.scale Scalar.one⟩ := by
  have hunit : ∀ u ∈ d.basePowers.filter (fun u => u.power ≠ 0), u.unit ∈ baseUnits :=
    fun u hu => (mem_of_mem_basePowers (List.mem_of_mem_filter hu)).1
  have hscale : ∀ e ∈ baseUnits, e.conversion = .scale Scalar.one := by
    simp [baseUnits]
  have hscaled : List.Forall₂ r.IsScaled d.terms (d.basePowers.filter fun u => u.power ≠ 0) := by
    rw [terms_eq_map_basePowers,List.forall₂_map_left_iff,List.forall₂_same]
    intro u hu
    refine ⟨hr u.unit (hunit u hu),?_,rfl⟩
    rw [hscale u.unit (hunit u hu)]
    rfl
  have hone : totalFactor (d.basePowers.filter fun u => u.power ≠ 0) = Scalar.one :=
    totalFactor_eq_one fun u hu => by
      rw [hscale u.unit (hunit u hu)]
      rfl
  have hyields := Registry.Yields.product hscaled (staysInRange_basePowers hd).filter
    (hone ▸ isUsable_one)
  rwa [hone,totalDimension_filter,totalDimension_basePowers] at hyields

theorem resolve_text (hd : d.Fits) (hne : d ≠ dimensionless) (hr : r.HasBaseUnits) :
    (r.resolve d.text).result = .ok ⟨d,.scale Scalar.one⟩ :=
  Registry.resolve_eq_ok_iff.mpr ⟨d.terms,read_text hd hne r.knows,yields_terms hd hr⟩

theorem eq_of_text_eq {d' : Dimension} (hd : d.Fits) (hd' : d'.Fits) (h : d.text = d'.text) :
    d = d' := by
  by_cases hne : d = dimensionless
  · by_cases hne' : d' = dimensionless
    · rw [hne,hne']
    · exact absurd (hne ▸ h.symm) (text_ne_text_dimensionless hd' hne')
  · by_cases hne' : d' = dimensionless
    · exact absurd (hne' ▸ h) (text_ne_text_dimensionless hd hne)
    · have hfirst := resolve_text hd hne Registry.hasBaseUnits_baseUnits
      have hsecond := resolve_text hd' hne' Registry.hasBaseUnits_baseUnits
      rw [h,hsecond] at hfirst
      injection hfirst with hfirst
      injection hfirst with hdimension
      exact hdimension.symm

/-- A dimension can be read back from its text, which is therefore its own. -/
theorem text_reads_back (hd : d.Fits) :
    (d ≠ dimensionless → (∀ known, Signature.read known d.text = .ok d.terms) ∧
      ∀ r : Registry, r.HasBaseUnits → (r.resolve d.text).result = .ok ⟨d,.scale Scalar.one⟩) ∧
    ∀ d' : Dimension, d'.Fits → d'.text = d.text → d' = d :=
  ⟨fun hne => ⟨read_text hd hne,fun _ hr => resolve_text hd hne hr⟩,
    fun _ hd' h => eq_of_text_eq hd' hd h⟩

def extremes : Dimension := ⟨-2147483648,0,1,2147483647,-1⟩

theorem text_reads_back_extremes :
    extremes.Fits ∧ extremes.text = "L⁻²¹⁴⁷⁴⁸³⁶⁴⁸·T·Θ²¹⁴⁷⁴⁸³⁶⁴⁷·A⁻¹".toList ∧
      Signature.read (fun _ => false) extremes.text =
        .ok [⟨['L'],-2147483648⟩,⟨['T'],1⟩,⟨['Θ'],2147483647⟩,⟨['A'],-1⟩] ∧
      ((⟨baseUnits⟩ : Registry).resolve extremes.text).result =
        .ok ⟨extremes,.scale Scalar.one⟩ := by
  have hfits : extremes.Fits := by decide
  have hback := (text_reads_back hfits).1 (by decide)
  exact ⟨hfits,by decide +kernel,hback.1 _,hback.2 _ Registry.hasBaseUnits_baseUnits⟩

end Dimension
end Mensura
