import Mathlib.Data.List.Infix
import Mensura.Proofs.Decimal.Numeral
import Mensura.Proofs.Measurement.Split

/-! The number that a text starts with is its longest start of the form of a decimal: digits with
underscores among them, perhaps with a sign, a point and an exponent. A letter does not start an
exponent unless digits follow, and whatever the scanner takes for a number can be read as one. -/
namespace Mensura.Measurement
open Decimal (spanSign IsFraction IsExponent IsNumeral)

variable {sign whole point exponent s t : List Char}

/-- A point and digits after it, or nothing. -/
def IsPoint (s : List Char) : Prop :=
  s = [] ∨ ∃ digits, (∀ c ∈ digits, isNumeralChar c = true) ∧ s = '.'::digits

/-- There is a digit before the exponent, and there are no underscores in the exponent. -/
inductive IsDecimal : List Char → Prop
  | intro {sign whole point exponent : List Char} (hsign : sign ∈ [[],['+'],['-']])
      (hwhole : ∀ c ∈ whole, isNumeralChar c = true) (hpoint : IsPoint point)
      (hdigit : ∃ c ∈ whole ++ point, c.isDigit = true) (hexponent : IsExponent exponent) :
      IsDecimal (sign ++ whole ++ point ++ exponent)

theorem isPoint_spanPoint (s : List Char) : IsPoint (spanPoint s).1 := by
  unfold spanPoint
  split
  · exact .inr ⟨_,fun _ hc => List.mem_takeWhile_imp hc,rfl⟩
  · exact .inl rfl

theorem isExponent_spanExponent (s : List Char) : IsExponent (spanExponent s).1 := by
  cases s with
  | nil => exact .inl rfl
  | cons c s =>
    simp only [spanExponent]
    split
    · rename_i h
      exact .inr ⟨c,by simpa using h.1,_,spanSign_fst_mem s,_,h.2,
        fun _ hd => List.mem_takeWhile_imp hd,rfl⟩
    · exact .inl rfl

/-- The scanner finds nothing but decimals. -/
theorem isDecimal_spanDecimal (h : (spanDecimal s).1 ≠ []) : IsDecimal (spanDecimal s).1 := by
  simp only [spanDecimal] at h ⊢
  split at h
  · rename_i hdigit
    rw [if_pos hdigit]
    exact .intro (spanSign_fst_mem s) (fun _ hc => List.mem_takeWhile_imp hc) (isPoint_spanPoint _)
      (List.any_eq_true.mp hdigit) (isExponent_spanExponent _)
  · exact absurd rfl h

/-! Nothing that belongs to a decimal is left out, whatever follows it. -/

section Mantissa
variable (hsign : sign ∈ [[],['+'],['-']]) (hwhole : ∀ c ∈ whole, isNumeralChar c = true)
  (hpoint : IsPoint point) (hdigit : ∃ c ∈ whole ++ point, c.isDigit = true)
include hwhole hpoint hdigit

theorem head?_ne_sign (t : List Char) :
    ∀ c ∈ (whole ++ (point ++ t)).head?, c ≠ '+' ∧ c ≠ '-' := by
  cases whole with
  | cons d whole =>
    have hd := hwhole d List.mem_cons_self
    have hsign : d ≠ '+' ∧ d ≠ '-' := by
      constructor <;> (rintro rfl; simp [isNumeralChar] at hd)
    simpa using hsign
  | nil =>
    rcases hpoint with rfl | ⟨digits,-,rfl⟩
    · simp at hdigit
    · simp

include hsign

theorem mantissa_isPrefix (t : List Char) :
    sign ++ whole ++ point <+: (spanMantissa (sign ++ whole ++ point ++ t)).1 := by
  have hspan := spanSign_sign_append hsign (head?_ne_sign hwhole hpoint hdigit t)
  have htake : (whole ++ (point ++ t)).takeWhile isNumeralChar =
      whole ++ (point ++ t).takeWhile isNumeralChar := List.takeWhile_append_of_pos hwhole
  have hdrop : (whole ++ (point ++ t)).dropWhile isNumeralChar =
      (point ++ t).dropWhile isNumeralChar := List.dropWhile_append_of_pos hwhole
  simp only [spanMantissa,List.append_assoc,hspan,htake,hdrop,List.prefix_append_right_inj]
  rcases hpoint with rfl | ⟨digits,hdigits,rfl⟩
  · exact List.nil_prefix
  · have hpoint : isNumeralChar '.' = false := by decide
    have hall : (digits ++ t).takeWhile isNumeralChar = digits ++ t.takeWhile isNumeralChar :=
      List.takeWhile_append_of_pos hdigits
    simp [hpoint,spanPoint,hall]

theorem spanMantissa_mantissa :
    spanMantissa (sign ++ whole ++ point) = (sign ++ whole ++ point,[]) := by
  have hparts := spanMantissa_append (sign ++ whole ++ point)
  have hwholly := mantissa_isPrefix hsign hwhole hpoint hdigit []
  rw [List.append_nil] at hwholly
  have hfst : (spanMantissa (sign ++ whole ++ point)).1 = sign ++ whole ++ point :=
    antisymm ⟨_,hparts⟩ hwholly
  rw [hfst] at hparts
  exact Prod.ext hfst (List.append_right_eq_self.mp hparts)

end Mantissa

theorem exponent_isPrefix (h : IsExponent exponent) (t : List Char) :
    exponent <+: (spanExponent (exponent ++ t)).1 := by
  rcases h with rfl | ⟨letter,hletter,sign,hsign,digits,hne,hdigits,rfl⟩
  · exact List.nil_prefix
  · obtain ⟨d,ds,rfl⟩ := List.exists_cons_of_ne_nil hne
    have hspan : spanSign (sign ++ (d::ds ++ t)) = (sign,d::ds ++ t) :=
      spanSign_sign_append hsign
        (by simpa using Text.ne_sign_of_isDigit (hdigits d List.mem_cons_self))
    have hd : d.isDigit = true := hdigits d List.mem_cons_self
    have htake : (d::ds ++ t).takeWhile Char.isDigit = d::ds ++ t.takeWhile Char.isDigit :=
      List.takeWhile_append_of_pos hdigits
    have hletter' : letter = 'e' ∨ letter = 'E' := by simpa using hletter
    simp only [List.cons_append,List.append_assoc,spanExponent] at hspan htake ⊢
    simp [hspan,htake,hletter']

/-! What the underscores leave. -/

theorem isDigit_of_isNumeralChar (hs : ∀ c ∈ s, isNumeralChar c = true) :
    ∀ c ∈ s.filter (· ≠ '_'), c.isDigit = true :=
  Decimal.isDigit_of_mem_filter fun c hc => by simpa [isNumeralChar] using hs c hc

theorem isFraction_filter (h : IsPoint point) : IsFraction (point.filter (· ≠ '_')) := by
  rcases h with rfl | ⟨digits,hdigits,rfl⟩
  · exact .inl rfl
  · exact .inr ⟨_,isDigit_of_isNumeralChar hdigits,rfl⟩

theorem filter_exponent (h : IsExponent exponent) : exponent.filter (· ≠ '_') = exponent := by
  rcases h with rfl | ⟨letter,hletter,sign,hsign,digits,-,hdigits,rfl⟩
  · rfl
  · rw [← List.cons_append,List.filter_append,Decimal.filter_letter_sign hletter hsign,
      Decimal.filter_eq_of_forall_isDigit hdigits]

namespace IsDecimal

/-- A decimal that the text starts with is a part of its number. -/
theorem isPrefix_spanDecimal (h : IsDecimal s) (t : List Char) :
    s <+: (spanDecimal (s ++ t)).1 := by
  obtain @⟨sign,whole,point,exponent,hsign,hwhole,hpoint,hdigit,hexponent⟩ := h
  have hmantissa := mantissa_isPrefix hsign hwhole hpoint hdigit
  have hany : ∀ r, sign ++ whole ++ point <+: r → r.any Char.isDigit = true := by
    obtain ⟨d,hmem,hd⟩ := hdigit
    intro r hr
    refine List.any_eq_true.mpr ⟨d,hr.subset ?_,hd⟩
    rw [List.append_assoc]
    exact List.mem_append_right _ hmem
  by_cases hnil : exponent = []
  · subst hnil
    rw [List.append_nil,spanDecimal_eq,if_pos (hany _ (hmantissa t))]
    exact (hmantissa t).trans (List.prefix_append _ _)
  · -- The mantissa cannot go on with the letter, so the two are scanned one after the other.
    have hstop : ∀ c ∈ (exponent ++ t).head?, isNumericStart c = false ∧ c ≠ '_' := by
      intro c hc
      rw [List.head?_append_of_ne_nil _ hnil] at hc
      rcases hexponent.head?_eq c hc with rfl | rfl <;> decide
    have hcut := spanMantissa_append_of (s := sign ++ whole ++ point) (.inr hstop)
    rw [spanMantissa_mantissa hsign hwhole hpoint hdigit,List.nil_append] at hcut
    have hassoc : sign ++ whole ++ point ++ exponent ++ t =
        sign ++ whole ++ point ++ (exponent ++ t) := List.append_assoc ..
    rw [hassoc,spanDecimal_eq,hcut,if_pos (hany _ List.prefix_rfl)]
    exact (List.prefix_append_right_inj _).mpr (exponent_isPrefix hexponent t)

theorem ne_nil (h : IsDecimal s) : s ≠ [] := by
  obtain @⟨sign,whole,point,exponent,-,-,-,⟨d,hmem,-⟩,-⟩ := h
  intro hnil
  rw [List.append_eq_nil_iff,List.append_assoc,List.append_eq_nil_iff] at hnil
  exact List.ne_nil_of_mem hmem hnil.1.2

/-- Without its underscores a decimal is a numeral. -/
theorem isNumeral (h : IsDecimal s) : IsNumeral (s.filter (· ≠ '_')) := by
  obtain @⟨sign,whole,point,exponent,hsign,hwhole,hpoint,⟨d,hmem,hd⟩,hexponent⟩ := h
  have hkept : (sign ++ whole ++ point ++ exponent).filter (· ≠ '_') =
      sign ++ (whole.filter (· ≠ '_') ++ (point.filter (· ≠ '_') ++ exponent)) := by
    simp only [List.filter_append,Decimal.filter_sign hsign,filter_exponent hexponent,
      List.append_assoc]
  rw [hkept]
  refine .intro hsign (isDigit_of_isNumeralChar hwhole) (isFraction_filter hpoint) ⟨d,?_,hd⟩
    hexponent
  rw [← List.filter_append]
  exact Decimal.mem_filter_of_isDigit hmem hd

end IsDecimal

/-- A start of the text that is a decimal, and none is longer. -/
structure IsLongestDecimal (p s : List Char) : Prop where
  isDecimal : IsDecimal p
  isPrefix : p <+: s
  longest : ∀ q, q <+: s → IsDecimal q → q.length ≤ p.length

theorem isLongestDecimal_spanDecimal (h : (spanDecimal s).1 ≠ []) :
    IsLongestDecimal (spanDecimal s).1 s where
  isDecimal := isDecimal_spanDecimal h
  isPrefix := ⟨_,spanDecimal_append s⟩
  longest := by
    rintro q ⟨t,rfl⟩ hq
    exact (hq.isPrefix_spanDecimal t).length_le

theorem spanDecimal_fst_eq_nil_iff :
    (spanDecimal s).1 = [] ↔ ∀ p, p <+: s → ¬IsDecimal p := by
  constructor
  · rintro hnil p ⟨t,rfl⟩ hp
    have hprefix := hp.isPrefix_spanDecimal t
    rw [hnil] at hprefix
    exact hp.ne_nil (List.prefix_nil.mp hprefix)
  · intro hnone
    by_contra hne
    exact hnone _ ⟨_,spanDecimal_append s⟩ (isDecimal_spanDecimal hne)

theorem split_of_spanDecimal {text number rest : List Char} (hne : number ≠ [])
    (h : spanDecimal (Text.trim text) = (number,rest)) :
    split text = readParts number rest := by
  have htext : Text.trim text ≠ [] := by
    intro hnil
    rw [hnil] at h
    exact hne (Prod.ext_iff.mp h).1.symm
  rw [split_of_ne_nil htext,spanNumber_of_spanDecimal hne h]

/-- The scanner takes the longest decimal, none only where there is none, and a text that starts
with one is always split. -/
theorem decimal_start_is_longest (s text : List Char) :
    ((spanDecimal s).1 = [] ↔ ∀ p, p <+: s → ¬IsDecimal p) ∧
    ((spanDecimal s).1 ≠ [] → IsLongestDecimal (spanDecimal s).1 s) ∧
    ((spanDecimal (Text.trim text)).1 ≠ [] →
      IsNumeral ((spanDecimal (Text.trim text)).1.filter (· ≠ '_')) ∧
      ∃ x, readGrouped? (spanDecimal (Text.trim text)).1 = some x ∧ split text =
        .ok (x,Text.trim ((Text.trim text).drop (spanDecimal (Text.trim text)).1.length))) := by
  refine ⟨spanDecimal_fst_eq_nil_iff,isLongestDecimal_spanDecimal,fun hne => ?_⟩
  have hnumeral := (isDecimal_spanDecimal hne).isNumeral
  obtain ⟨x,hx⟩ := hnumeral.exists_readNumber?
  have hrest : (Text.trim text).drop (spanDecimal (Text.trim text)).1.length =
      (spanDecimal (Text.trim text)).2 :=
    (congrArg (List.drop _) (spanDecimal_append (Text.trim text)).symm).trans List.drop_left
  refine ⟨hnumeral,x,hx,?_⟩
  rw [split_of_spanDecimal hne rfl,hrest]
  exact readParts_eq_ok_iff.mpr ⟨hx,rfl⟩

/-- A letter and a sign are no exponent, and a lone underscore before the point does no harm. -/
theorem longest_before_bare_letter : IsLongestDecimal "-_.5".toList "-_.5E+".toList ∧
    ∃ x, readGrouped? "-_.5".toList = some x ∧ split " -_.5E+ ".toList = .ok (x,"E+".toList) := by
  have htrim : Text.trim " -_.5E+ ".toList = "-_.5E+".toList := by decide
  have hnumber : (spanDecimal "-_.5E+".toList).1 = "-_.5".toList := by decide
  have hne : "-_.5".toList ≠ [] := by decide
  obtain ⟨-,hlongest,hread⟩ := decimal_start_is_longest "-_.5E+".toList " -_.5E+ ".toList
  rw [htrim,hnumber] at hread
  rw [hnumber] at hlongest
  exact ⟨hlongest hne,(hread hne).2⟩

/-! Texts that do not start with a decimal. Their first word is read instead, without its
underscores, and as a rule it can only be the name of a special value. But a sign is not looked for
behind underscores, and so a decimal whose sign comes after some is read as a word too. -/

open Decimal (IsSpecial)

variable {word : List Char} {c d : Char}

/-- A decimal with a sign, and underscores in front of it. -/
def IsHidden (word : List Char) : Prop :=
  ∃ underscores sign rest, underscores ≠ [] ∧ (∀ c ∈ underscores, c = '_') ∧ sign ∈ ['+','-'] ∧
    word = underscores ++ sign::rest ∧ IsNumeral ((sign::rest).filter (· ≠ '_'))

/-- A digit, or a point and a digit. -/
def StartsDigits (s : List Char) : Prop :=
  ∃ d t, d.isDigit = true ∧ (s = d::t ∨ s = '.'::d::t)

theorem startsDigits_of_isNumeral (h : IsNumeral s) :
    ∃ sign ∈ [[],['+'],['-']], ∃ t, s = sign ++ t ∧ StartsDigits t := by
  obtain @⟨sign,digits,fraction,exponent,hsign,hdigits,hfraction,⟨c,hmem,hc⟩,-⟩ := h
  refine ⟨sign,hsign,_,rfl,?_⟩
  cases digits with
  | cons d digits => exact ⟨d,_,hdigits d List.mem_cons_self,.inl rfl⟩
  | nil =>
    rcases hfraction with rfl | ⟨ds,hds,rfl⟩
    · simp at hmem
    · -- the digit that there is comes after the point
      obtain ⟨d,ds,rfl⟩ : ∃ d ds', ds = d::ds' := by
        apply List.exists_cons_of_ne_nil
        rintro rfl
        rw [List.nil_append,List.mem_singleton] at hmem
        exact absurd hc (by simp [hmem])
      exact ⟨d,_,hds d List.mem_cons_self,.inr rfl⟩

/-- The first character that is kept has only underscores before it. -/
theorem exists_underscores (h : s.filter (· ≠ '_') = c::t) : ∃ underscores rest,
    (∀ d ∈ underscores, d = '_') ∧ s = underscores ++ c::rest ∧ rest.filter (· ≠ '_') = t := by
  obtain ⟨underscores,rest,rfl,hunderscores,-,hrest⟩ := List.filter_eq_cons_iff.mp h
  exact ⟨underscores,rest,fun d hd => by simpa using hunderscores d hd,rfl,hrest⟩

theorem isNumeralChar_of_underscores (hs : ∀ c ∈ s, c = '_') (hd : d.isDigit = true) :
    ∀ c ∈ s ++ [d], isNumeralChar c = true := by
  intro c hc
  rcases List.mem_append.mp hc with hc | hc
  · simp [isNumeralChar,hs c hc]
  · simp [isNumeralChar,List.mem_singleton.mp hc,hd]

/-- Underscores do not hide digits, neither before nor after the point. -/
theorem exists_isDecimal {sign : List Char} (hsign : sign ∈ [[],['+'],['-']])
    (h : StartsDigits (s.filter (· ≠ '_'))) : ∃ p, p <+: sign ++ s ∧ IsDecimal p := by
  obtain ⟨d,t,hd,h | h⟩ := h
  · obtain ⟨us,rest,hus,rfl,-⟩ := exists_underscores h
    refine ⟨sign ++ (us ++ [d]) ++ [] ++ [],⟨rest,by simp⟩,?_⟩
    exact .intro hsign (isNumeralChar_of_underscores hus hd) (.inl rfl) ⟨d,by simp,hd⟩ (.inl rfl)
  · obtain ⟨us,rest,hus,rfl,hrest⟩ := exists_underscores h
    obtain ⟨vs,rest,hvs,rfl,-⟩ := exists_underscores hrest
    have hwhole : ∀ c ∈ us, isNumeralChar c = true := fun c hc => by simp [isNumeralChar,hus c hc]
    have hpoint : IsPoint ('.'::(vs ++ [d])) := .inr ⟨_,isNumeralChar_of_underscores hvs hd,rfl⟩
    refine ⟨sign ++ us ++ '.'::(vs ++ [d]) ++ [],⟨rest,by simp⟩,?_⟩
    exact .intro hsign hwhole hpoint ⟨d,by simp,hd⟩ (.inl rfl)

/-- The only numerals that the scanner misses are hidden ones. -/
theorem isHidden_of_isNumeral (hnone : ∀ p, p <+: word → ¬IsDecimal p)
    (h : IsNumeral (word.filter (· ≠ '_'))) : IsHidden word := by
  obtain ⟨sign,hsign,t,hword,ht⟩ := startsDigits_of_isNumeral h
  have hunsigned : ¬StartsDigits (word.filter (· ≠ '_')) := by
    intro hstart
    obtain ⟨p,hp,hdecimal⟩ := exists_isDecimal List.mem_cons_self hstart
    exact hnone p hp hdecimal
  obtain ⟨c,rfl,hc⟩ : ∃ c, sign = [c] ∧ c ∈ ['+','-'] := by
    simp only [List.mem_cons,List.not_mem_nil,or_false] at hsign
    rcases hsign with rfl | rfl | rfl
    · exact absurd (hword ▸ ht) hunsigned
    · exact ⟨'+',rfl,by simp⟩
    · exact ⟨'-',rfl,by simp⟩
  obtain ⟨us,rest,hus,rfl,hrest⟩ := exists_underscores hword
  refine ⟨us,c,rest,?_,hus,hc,rfl,?_⟩
  · rintro rfl
    have hstart : StartsDigits (rest.filter (· ≠ '_')) := by
      rwa [show rest.filter (· ≠ '_') = t from hrest]
    obtain ⟨p,hp,hdecimal⟩ := exists_isDecimal hsign hstart
    exact hnone p hp hdecimal
  · have hnothing : us.filter (· ≠ '_') = [] :=
      List.filter_eq_nil_iff.mpr fun d hd => by simp [hus d hd]
    rwa [List.filter_append,hnothing] at h

theorem IsHidden.isNumeral (h : IsHidden word) : IsNumeral (word.filter (· ≠ '_')) := by
  obtain ⟨us,sign,rest,-,hus,-,rfl,hnumeral⟩ := h
  have hnothing : us.filter (· ≠ '_') = [] :=
    List.filter_eq_nil_iff.mpr fun d hd => by simp [hus d hd]
  rwa [List.filter_append,hnothing]

theorem split_of_no_decimal {text : List Char} (htext : Text.trim text ≠ [])
    (hnone : (spanDecimal (Text.trim text)).1 = []) :
    split text = readParts (spanWord (Text.trim text)).1 (spanWord (Text.trim text)).2 := by
  rw [split_of_ne_nil htext]
  rcases h : spanDecimal (Text.trim text) with ⟨number,rest⟩
  rw [h] at hnone
  obtain rfl : number = [] := hnone
  simp only [spanNumber,h]

/-- A word in place of a decimal is a special value or a hidden decimal, or it is refused. -/
theorem split_without_decimal {text : List Char} (h : (spanDecimal (Text.trim text)).1 = []) :
    (∀ x signature, split text = .ok (x,signature) →
      signature = Text.trim (spanWord (Text.trim text)).2 ∧
        (IsSpecial ((spanWord (Text.trim text)).1.filter (· ≠ '_')) ∧
          (Scalar.isNaN x = true ∨ Scalar.isInfinite x = true) ∨
        IsHidden (spanWord (Text.trim text)).1)) ∧
    ((∃ x signature, split text = .ok (x,signature)) ↔
      IsSpecial ((spanWord (Text.trim text)).1.filter (· ≠ '_')) ∨
        IsHidden (spanWord (Text.trim text)).1) ∧
    ∀ e, split text = .error e →
      e = if Text.trim text = [] then .empty else .invalidNumber (spanWord (Text.trim text)).1 := by
  by_cases htext : Text.trim text = []
  · have hsplit : split text = .error .empty := by simp [split,htext]
    have hspecial : ¬IsSpecial [] := fun hs => by
      obtain ⟨x,hx⟩ := hs.exists_readNumber?
      cases hx
    have hhidden : ¬IsHidden [] := by
      rintro ⟨us,sign,rest,-,-,-,hnil,-⟩
      simp at hnil
    simp [htext,hsplit,spanWord,hspecial,hhidden]
  · have hword : (spanWord (Text.trim text)).1 <+: Text.trim text := List.takeWhile_prefix _
    have hnone : ∀ p, p <+: (spanWord (Text.trim text)).1 → ¬IsDecimal p := fun p hp =>
      spanDecimal_fst_eq_nil_iff.mp h p (hp.trans hword)
    rw [split_of_no_decimal htext h]
    generalize (spanWord (Text.trim text)).1 = word at hnone
    refine ⟨fun x signature hx => ?_,?_,fun e he => ?_⟩
    · obtain ⟨hread,hrest⟩ := readParts_eq_ok_iff.mp hx
      refine ⟨hrest.symm,?_⟩
      rcases Decimal.of_readNumber? hread with hnumeral | ⟨hspecial,hfinite⟩
      · exact .inr (isHidden_of_isNumeral hnone hnumeral)
      · exact .inl ⟨hspecial,(Scalar.isFinite_eq_false_iff x).mp hfinite⟩
    · have hnumeral : IsNumeral (word.filter (· ≠ '_')) ↔ IsHidden word :=
        ⟨isHidden_of_isNumeral hnone,IsHidden.isNumeral⟩
      rw [← hnumeral,or_comm,← Decimal.exists_readNumber?_iff]
      simp only [readParts_eq_ok_iff,exists_and_left,exists_eq',and_true]
      rfl
    · rw [if_neg htext]
      unfold readParts at he
      split at he
      · cases he
      · exact (Except.error.inj he).symm

theorem split_without_decimal_infinity : (spanDecimal (Text.trim " -In_finity m".toList)).1 = [] ∧
    ∃ x, split " -In_finity m".toList = .ok (x,"m".toList) ∧
      (Scalar.isNaN x = true ∨ Scalar.isInfinite x = true) := by
  have hnone : (spanDecimal (Text.trim " -In_finity m".toList)).1 = [] := by decide
  obtain ⟨hvalue,hread,-⟩ := split_without_decimal hnone
  have hspecial : IsSpecial ((spanWord (Text.trim " -In_finity m".toList)).1.filter (· ≠ '_')) :=
    @IsSpecial.intro ['-'] "Infinity".toList (by simp) (by decide)
  obtain ⟨x,signature,hx⟩ := hread.mpr (.inl hspecial)
  obtain ⟨rfl,hor⟩ := hvalue x signature hx
  refine ⟨hnone,x,hx,?_⟩
  rcases hor with ⟨-,hvalue⟩ | ⟨us,sign,rest,hne,hus,-,hword,-⟩
  · exact hvalue
  · -- the word does not start with an underscore
    obtain ⟨c,us,rfl⟩ := List.exists_cons_of_ne_nil hne
    have hc := hus c List.mem_cons_self
    cases hc
    exact absurd (List.cons.inj hword).1 (by decide)

/-- A number that is neither infinite nor none, in a text that starts with no decimal. -/
theorem hidden_decimal_read : (spanDecimal (Text.trim "_+5 m".toList)).1 = [] ∧
    ∃ x, split "_+5 m".toList = .ok (x,"m".toList) ∧ Scalar.isFinite x = true ∧
      ¬(Scalar.isNaN x = true ∨ Scalar.isInfinite x = true) := by
  refine ⟨by decide,_,rfl,by decide +kernel,by decide +kernel⟩

end Mensura.Measurement
