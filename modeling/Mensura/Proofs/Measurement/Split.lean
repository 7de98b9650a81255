import Mensura.Measurement
import Mensura.Proofs.Text
import Mensura.Registry.Outcome

/-! What follows a number. A number ends at the first character that cannot continue it, and what
can depends on whether it has an exponent yet: one without goes on with digits, underscores and
exponents, one with an exponent with digits only. A blank ends every number. -/
namespace Mensura.Measurement
open Decimal (spanSign spanSign_append)

variable {p : Char → Bool} {s t : List Char}

/-- A letter, perhaps a sign, and a digit. -/
def StartsExponent (s : List Char) : Prop :=
  ∃ letter ∈ ['e','E'], ∃ sign ∈ [[],['+'],['-']], ∃ digit rest,
    digit.isDigit = true ∧ s = letter::(sign ++ digit::rest)

theorem StartsExponent.append {s : List Char} (h : StartsExponent s) (t : List Char) :
    StartsExponent (s ++ t) := by
  obtain ⟨letter,hletter,sign,hsign,digit,rest,hdigit,rfl⟩ := h
  exact ⟨letter,hletter,sign,hsign,digit,rest ++ t,hdigit,by simp⟩

theorem StartsExponent.exists_cons {s : List Char} (h : StartsExponent s) :
    ∃ c t, s = c::t ∧ (c = 'e' ∨ c = 'E') := by
  obtain ⟨letter,hletter,sign,-,digit,rest,-,rfl⟩ := h
  exact ⟨letter,sign ++ digit::rest,rfl,by simpa using hletter⟩

theorem isNumericStart_eq_false_iff {c : Char} : isNumericStart c = false ↔
    c.isDigit = false ∧ c ≠ '+' ∧ c ≠ '-' ∧ c ≠ '.' := by
  simp [isNumericStart,and_assoc]

theorem span_append (h : s.dropWhile p ≠ [] ∨ ∀ c ∈ t.head?, p c = false) :
    (s ++ t).takeWhile p = s.takeWhile p ∧ (s ++ t).dropWhile p = s.dropWhile p ++ t := by
  induction s with
  | nil =>
    cases t with
    | nil => simp
    | cons c t =>
      have hc : p c = false := h.resolve_left (fun hne => hne rfl) c rfl
      simp [hc]
  | cons c s ih =>
    cases hc : p c with
    | false => simp [hc]
    | true => simpa [hc] using ih (by simpa [hc] using h)

theorem spanSign_append_of (h : s ≠ [] ∨ ∀ c ∈ t.head?, c ≠ '+' ∧ c ≠ '-') :
    spanSign (s ++ t) = ((spanSign s).1,(spanSign s).2 ++ t) := by
  cases s with
  | nil =>
    cases t with
    | nil => rfl
    | cons c t =>
      obtain ⟨hplus,hminus⟩ := h.resolve_left (fun hne => hne rfl) c rfl
      simp [spanSign,hplus,hminus]
  | cons c s =>
    rw [List.cons_append]
    unfold spanSign
    split <;> simp_all

/-- A sign is cut off what does not start with one. -/
theorem spanSign_sign_append {sign : List Char} (hsign : sign ∈ [[],['+'],['-']])
    (h : ∀ c ∈ s.head?, c ≠ '+' ∧ c ≠ '-') : spanSign (sign ++ s) = (sign,s) := by
  simp only [List.mem_cons,List.not_mem_nil,or_false] at hsign
  rcases hsign with rfl | rfl | rfl
  · simpa [spanSign] using spanSign_append_of (s := []) (.inr h)
  · rfl
  · rfl

theorem spanPoint_append_of
    (h : (spanPoint s).2 ≠ [] ∨ ∀ c ∈ t.head?, isNumeralChar c = false ∧ c ≠ '.') :
    spanPoint (s ++ t) = ((spanPoint s).1,(spanPoint s).2 ++ t) := by
  cases s with
  | nil =>
    cases t with
    | nil => rfl
    | cons c t =>
      obtain ⟨-,hc⟩ := h.resolve_left (fun hne => hne rfl) c rfl
      simp [spanPoint,hc]
  | cons c s =>
    by_cases hc : c = '.'
    · subst hc
      have hspan := span_append (s := s) (t := t) (p := isNumeralChar)
        (h.imp_right fun h c hc => (h c hc).1)
      simp [spanPoint,hspan]
    · simp [spanPoint,hc]

/-- The number up to its exponent, and the rest. -/
def spanMantissa (s : List Char) : List Char × List Char :=
  let (sign,r) := spanSign s
  let (point,rest) := spanPoint (r.dropWhile isNumeralChar)
  (sign ++ r.takeWhile isNumeralChar ++ point,rest)

@[simp] theorem spanMantissa_append (s : List Char) :
    (spanMantissa s).1 ++ (spanMantissa s).2 = s := by
  simp [spanMantissa]

theorem spanMantissa_append_of (h : (spanMantissa s).2 ≠ [] ∨
    ∀ c ∈ t.head?, isNumericStart c = false ∧ c ≠ '_') :
    spanMantissa (s ++ t) = ((spanMantissa s).1,(spanMantissa s).2 ++ t) := by
  have hstop : (spanMantissa s).2 ≠ [] ∨
      ∀ c ∈ t.head?, isNumeralChar c = false ∧ c ≠ '+' ∧ c ≠ '-' ∧ c ≠ '.' := by
    refine h.imp_right fun h c hc => ?_
    obtain ⟨hstart,hunderscore⟩ := h c hc
    obtain ⟨hdigit,hplus,hminus,hpoint⟩ := isNumericStart_eq_false_iff.mp hstart
    exact ⟨by simp [isNumeralChar,hdigit,hunderscore],hplus,hminus,hpoint⟩
  -- What is left after the point is left after all that comes before it.
  have hwhole : (spanMantissa s).2 ≠ [] → (spanSign s).2.dropWhile isNumeralChar ≠ [] := by
    intro hne hnil
    simp [spanMantissa,hnil,spanPoint] at hne
  have hs : (spanMantissa s).2 ≠ [] → s ≠ [] := by
    rintro hne rfl
    exact hne rfl
  have hsign := spanSign_append_of (s := s) (t := t)
    (hstop.imp hs fun h c hc => ⟨(h c hc).2.1,(h c hc).2.2.1⟩)
  have hspan := span_append (s := (spanSign s).2) (t := t) (p := isNumeralChar)
    (hstop.imp hwhole fun h c hc => (h c hc).1)
  have hpoint := spanPoint_append_of (s := (spanSign s).2.dropWhile isNumeralChar) (t := t)
    (hstop.imp_right fun h c hc => ⟨(h c hc).1,(h c hc).2.2.2⟩)
  simp only [spanMantissa,hsign,hspan,hpoint]

theorem spanDecimal_eq (s : List Char) : spanDecimal s =
    if (spanMantissa s).1.any Char.isDigit then
      ((spanMantissa s).1 ++ (spanExponent (spanMantissa s).2).1,
        (spanExponent (spanMantissa s).2).2)
    else ([],s) := by
  have hsign : (spanSign s).1.any Char.isDigit = false := by
    unfold spanSign
    split <;> rfl
  simp [spanDecimal,spanMantissa,hsign]

theorem spanExponent_append_of (hs : s ≠ []) (h : ∀ c ∈ t.head?, isNumericStart c = false) :
    spanExponent (s ++ t) = ((spanExponent s).1,(spanExponent s).2 ++ t) := by
  obtain ⟨c,s,rfl⟩ := List.exists_cons_of_ne_nil hs
  have hstart : ∀ c ∈ t.head?, c.isDigit = false ∧ c ≠ '+' ∧ c ≠ '-' := by
    intro c hc
    obtain ⟨hdigit,hplus,hminus,-⟩ := isNumericStart_eq_false_iff.mp (h c hc)
    exact ⟨hdigit,hplus,hminus⟩
  have hsign := spanSign_append_of (s := s) (t := t) (.inr fun c hc => (hstart c hc).2)
  have hspan := span_append (s := (spanSign s).2) (t := t) (p := Char.isDigit)
    (.inr fun c hc => (hstart c hc).1)
  simp only [List.cons_append,spanExponent,hsign,hspan]
  split <;> simp

theorem spanSign_fst_mem (s : List Char) : (spanSign s).1 ∈ [[],['+'],['-']] := by
  unfold spanSign
  split <;> simp

theorem startsExponent_cons_iff {c : Char} : StartsExponent (c::s) ↔
    (c = 'e' ∨ c = 'E') ∧ (spanSign s).2.takeWhile Char.isDigit ≠ [] := by
  constructor
  · rintro ⟨letter,hletter,sign,hsign,digit,rest,hdigit,hs⟩
    obtain ⟨rfl,rfl⟩ := List.cons.inj hs
    have hspan := spanSign_sign_append (s := digit::rest) hsign
      (by simpa using Text.ne_sign_of_isDigit hdigit)
    exact ⟨by simpa using hletter,by simp [hspan,hdigit]⟩
  · rintro ⟨hc,hne⟩
    cases hrest : (spanSign s).2 with
    | nil => simp [hrest] at hne
    | cons digit rest =>
      have hdigit : digit.isDigit = true := by
        by_contra hno
        simp [hrest,hno] at hne
      refine ⟨c,by simpa using hc,_,spanSign_fst_mem s,digit,rest,hdigit,?_⟩
      rw [← hrest,spanSign_append]

theorem StartsExponent.spanExponent_fst (h : StartsExponent s) :
    StartsExponent (spanExponent s).1 := by
  obtain ⟨c,s,rfl,-⟩ := h.exists_cons
  obtain ⟨hc,hne⟩ := startsExponent_cons_iff.mp h
  have hspan : (spanExponent (c::s)).1 =
      c::((spanSign s).1 ++ (spanSign s).2.takeWhile Char.isDigit) := by
    simp only [spanExponent]
    rw [if_pos ⟨hc,hne⟩]
  obtain ⟨digit,digits,hdigits⟩ := List.exists_cons_of_ne_nil hne
  have hdigit : digit.isDigit = true :=
    List.mem_takeWhile_imp (hdigits ▸ List.mem_cons_self)
  exact ⟨c,by simpa using hc,_,spanSign_fst_mem s,digit,digits,hdigit,by rw [hspan,hdigits]⟩

theorem spanExponent_fst_eq_nil_iff : (spanExponent s).1 = [] ↔ ¬StartsExponent s := by
  cases s with
  | nil => simp [spanExponent,StartsExponent]
  | cons c s =>
    rw [startsExponent_cons_iff]
    simp only [spanExponent]
    split
    · rename_i h
      exact ⟨fun hnil => absurd hnil (List.cons_ne_nil _ _),fun hno => absurd h hno⟩
    · rename_i h
      exact ⟨fun _ => h,fun _ => rfl⟩

theorem spanExponent_of_not_startsExponent (h : ¬StartsExponent s) : spanExponent s = ([],s) := by
  have hnil := spanExponent_fst_eq_nil_iff.mpr h
  have hrest := spanExponent_append s
  rw [hnil,List.nil_append] at hrest
  exact Prod.ext hnil hrest

/-- A text that does not continue the number stays out of it. -/
theorem spanDecimal_append_of (hstart : ∀ c ∈ t.head?, isNumericStart c = false)
    (h : (spanMantissa s).2 ≠ [] ∨ t.head? ≠ some '_' ∧ ¬StartsExponent t) :
    spanDecimal (s ++ t) = ((spanDecimal s).1,(spanDecimal s).2 ++ t) := by
  have hmantissa := spanMantissa_append_of (s := s) (t := t) (h.imp_right fun h c hc =>
    ⟨hstart c hc,fun he => h.1 (he ▸ hc)⟩)
  have hexponent : spanExponent ((spanMantissa s).2 ++ t) =
      ((spanExponent (spanMantissa s).2).1,(spanExponent (spanMantissa s).2).2 ++ t) := by
    by_cases hs : (spanMantissa s).2 = []
    · have hnot := (h.resolve_left fun hne => hne hs).2
      rw [hs,List.nil_append,spanExponent_of_not_startsExponent hnot]
      rfl
    · exact spanExponent_append_of hs hstart
  simp only [spanDecimal_eq,hmantissa,hexponent]
  split <;> simp

/-- A number without an exponent takes the one that follows. -/
theorem spanDecimal_append_of_mantissa (hs : (spanMantissa s).2 = []) (hne : (spanDecimal s).1 ≠ [])
    (h : ∀ c ∈ t.head?, isNumericStart c = false ∧ c ≠ '_') :
    spanDecimal (s ++ t) = (s ++ (spanExponent t).1,(spanExponent t).2) := by
  have hmantissa : (spanMantissa s).1 = s := by
    simpa [hs] using spanMantissa_append s
  have hdigit : s.any Char.isDigit = true := by
    by_contra hno
    simp [spanDecimal_eq,hmantissa,hno] at hne
  simp [spanDecimal_eq,spanMantissa_append_of (.inr h),hs,hmantissa,hdigit]

/-- What is wholly a number is a number whose exponent, if there is one, starts with a letter. -/
theorem spanMantissa_snd_eq_nil_iff (hs : (spanDecimal s).1 = s) (hne : s ≠ []) :
    (spanMantissa s).2 = [] ↔ 'e' ∉ s ∧ 'E' ∉ s := by
  constructor
  · intro hnil
    have hno : ∀ c, isNumericStart c = false → c ≠ '_' → c ∉ s := by
      intro c hstart hunderscore hc
      obtain ⟨a,b,rfl⟩ := List.append_of_mem hc
      have happ := spanMantissa_append_of (s := a) (t := c::b) (.inr (by simp [hstart,hunderscore]))
      simp [happ] at hnil
    exact ⟨hno 'e' rfl (by decide),hno 'E' rfl (by decide)⟩
  · rintro ⟨he,hE⟩
    by_contra hrest
    have hdigit : (spanMantissa s).1.any Char.isDigit = true := by
      by_contra hno
      exact hne (by simpa [spanDecimal_eq,hno] using hs.symm)
    have hexponent : (spanExponent (spanMantissa s).2).1 = (spanMantissa s).2 := by
      have hparts : (spanMantissa s).1 ++ (spanExponent (spanMantissa s).2).1 = s := by
        simpa [spanDecimal_eq s,hdigit] using hs
      exact List.append_cancel_left (hparts.trans (spanMantissa_append s).symm)
    have hstarts : StartsExponent (spanMantissa s).2 := by
      by_contra hno
      exact hrest (hexponent.symm.trans (spanExponent_fst_eq_nil_iff.mpr hno))
    obtain ⟨letter,rest,htext,hletter⟩ := hstarts.exists_cons
    have hmem : letter ∈ s := by
      rw [← spanMantissa_append s,htext]
      simp
    rcases hletter with rfl | rfl
    · exact he hmem
    · exact hE hmem

section Blank
variable {b : Char} (hb : Text.isBlank b = true)
include hb

theorem isNumericStart_of_isBlank : isNumericStart b = false := by
  cases hb' : isNumericStart b with
  | false => rfl
  | true =>
    simp only [isNumericStart,Bool.or_eq_true,decide_eq_true_eq] at hb'
    rcases hb' with ((hd | rfl) | rfl) | rfl
    · exact absurd hb (by simp [Text.isBlank_of_isDigit hd])
    all_goals exact absurd hb (by decide)

theorem spanDecimal_append_blank (s t : List Char) :
    spanDecimal (s ++ b::t) = ((spanDecimal s).1,(spanDecimal s).2 ++ b::t) := by
  have hunderscore : b ≠ '_' := by
    rintro rfl
    exact absurd hb (by decide)
  have hexponent : ¬StartsExponent (b::t) := by
    intro h
    obtain ⟨letter,rest,htext,hletter⟩ := h.exists_cons
    obtain ⟨rfl,-⟩ := List.cons.inj htext
    rcases hletter with rfl | rfl <;> exact absurd hb (by decide)
  exact spanDecimal_append_of (by simp [isNumericStart_of_isBlank hb])
    (.inr ⟨by simpa using hunderscore,hexponent⟩)

theorem spanNumber_append_blank (s t : List Char) :
    spanNumber (s ++ b::t) = ((spanNumber s).1,(spanNumber s).2 ++ b::t) := by
  have hword := span_append (s := s) (t := b::t) (p := (!Text.isBlank ·)) (.inr (by simp [hb]))
  have hdecimal := spanDecimal_append_blank hb s t
  rcases h : spanDecimal s with ⟨number,rest⟩
  rw [h] at hdecimal
  cases number with
  | nil => simp only [spanNumber,hdecimal,h,spanWord,hword]
  | cons c number => simp only [spanNumber,hdecimal,h]

end Blank

theorem spanDecimal_of_fst_eq (hs : (spanDecimal s).1 = s) : spanDecimal s = (s,[]) := by
  have happ := spanDecimal_append s
  rw [hs] at happ
  exact Prod.ext hs (List.append_cancel_left (happ.trans (List.append_nil s).symm))

theorem spanNumber_of_spanDecimal {number : List Char} (hne : number ≠ [])
    (h : spanDecimal s = (number,t)) : spanNumber s = (number,t) := by
  obtain ⟨c,number,rfl⟩ := List.exists_cons_of_ne_nil hne
  simp only [spanNumber,h]

/-- The number and what follows it, read. -/
def readParts (number rest : List Char) : Except ReadError (Float × List Char) :=
  match readGrouped? number with
  | some x => .ok (x,Text.trim rest)
  | none => .error (.invalidNumber number)

theorem readParts_eq_ok_iff {number rest signature : List Char} {x : Float} :
    readParts number rest = .ok (x,signature) ↔
      readGrouped? number = some x ∧ Text.trim rest = signature := by
  unfold readParts
  cases readGrouped? number <;> simp

theorem readParts_congr (number : List Char) {rest rest' : List Char}
    (h : Text.trim rest = Text.trim rest') : readParts number rest = readParts number rest' := by
  simp only [readParts,h]

theorem split_of_ne_nil {text : List Char} (h : Text.trim text ≠ []) : split text =
    readParts (spanNumber (Text.trim text)).1 (spanNumber (Text.trim text)).2 := by
  rw [split]
  exact if_neg h

theorem forall_isBlank_append {a b : List Char} {c : Char} (ha : ∀ c ∈ a, Text.isBlank c = true)
    (hc : Text.isBlank c = true) (hb : ∀ c ∈ b, Text.isBlank c = true) :
    ∀ d ∈ a ++ c::b, Text.isBlank d = true :=
  List.forall_mem_append.mpr ⟨ha,List.forall_mem_cons.mpr ⟨hc,hb⟩⟩

/-- A text that is wholly a number is the number before anything that follows a blank. -/
theorem split_append_blank {text s : List Char} {b : Char} (htext : Text.trim text ≠ [])
    (hrest : Text.trim (spanNumber (Text.trim text)).2 = []) (hb : Text.isBlank b = true)
    (hs : Text.trim s ≠ []) :
    split (text ++ b::s) = readParts (spanNumber (Text.trim text)).1 s := by
  obtain ⟨a,c,ha,hc,htrim⟩ := Text.exists_eq_trim text
  obtain ⟨u,w,hu,hw,hs'⟩ := Text.exists_eq_trim s
  have hgap := forall_isBlank_append hc hb hu
  obtain ⟨d,gap,hgap'⟩ := List.exists_cons_of_ne_nil (List.append_ne_nil_of_right_ne_nil c
    (List.cons_ne_nil b u))
  have hwhole : text ++ b::s =
      a ++ (Text.trim text ++ (c ++ b::u) ++ Text.trim s) ++ w := by
    conv_lhs => rw [htrim,hs']
    simp
  have htrimmed := (Text.isTrimmed_trim text).append (Text.isTrimmed_trim s) htext hs (c ++ b::u)
  have hall : Text.trim (text ++ b::s) = Text.trim text ++ (c ++ b::u) ++ Text.trim s := by
    rw [hwhole,Text.trim_append ha htrimmed hw]
  have hspan := spanNumber_append_blank (hgap d (by simp [hgap'])) (Text.trim text)
    (gap ++ Text.trim s)
  rw [split_of_ne_nil (by simp [hall,htext]),hall,hgap',List.append_assoc,List.cons_append,hspan]
  apply readParts_congr
  have hblank : ∀ e ∈ (spanNumber (Text.trim text)).2 ++ d::gap, Text.isBlank e = true := by
    rw [← hgap']
    exact List.forall_mem_append.mpr ⟨Text.trim_eq_nil_iff.mp hrest,hgap⟩
  have hassoc : (spanNumber (Text.trim text)).2 ++ d::(gap ++ Text.trim s) =
      ((spanNumber (Text.trim text)).2 ++ d::gap) ++ Text.trim s := by simp
  rw [hassoc,Text.trim_blank_append hblank,Text.trim_trim]

/-- A text that is a number alone is that number before any unit. -/
theorem split_append_of_split {text symbol : List Char} {x : Float}
    (h : split text = .ok (x,[])) (hs : Text.IsTrimmed symbol) (hne : symbol ≠ []) :
    split (text ++ ' '::symbol) = .ok (x,symbol) := by
  have htext : Text.trim text ≠ [] := by
    intro hnil
    simp [split,hnil] at h
  rw [split_of_ne_nil htext] at h
  obtain ⟨hx,hrest⟩ := readParts_eq_ok_iff.mp h
  have htrim := Text.trim_of_isTrimmed hs
  rw [split_append_blank htext hrest (by decide) (by rwa [htrim])]
  exact readParts_eq_ok_iff.mpr ⟨hx,htrim⟩

theorem isBlank_eq_false_of_mem (hs : (spanDecimal s).1 = s) {c : Char} (hc : c ∈ s) :
    Text.isBlank c = false := by
  cases hb : Text.isBlank c with
  | false => rfl
  | true =>
    obtain ⟨a,t,rfl⟩ := List.append_of_mem hc
    have hrest := spanDecimal_append (a ++ c::t)
    rw [hs] at hrest
    simp [spanDecimal_append_blank hb] at hrest

section Decimal
variable {number : List Char} (hn : (spanDecimal number).1 = number)
include hn

theorem isTrimmed_of_decimal : Text.IsTrimmed number :=
  Text.isTrimmed_of_forall fun _ => isBlank_eq_false_of_mem hn

variable (hne : number ≠ [])
include hne

theorem split_decimal_append_blank {b : Char} (hb : Text.isBlank b = true)
    (hs : Text.trim s ≠ []) : split (number ++ b::s) = readParts number s := by
  have htrim : Text.trim number = number := Text.trim_of_isTrimmed (isTrimmed_of_decimal hn)
  have hspan : spanNumber (Text.trim number) = (number,[]) := by
    rw [htrim]
    exact spanNumber_of_spanDecimal hne (spanDecimal_of_fst_eq hn)
  have hsplit : split (number ++ b::s) = readParts (spanNumber (Text.trim number)).1 s :=
    split_append_blank (by rwa [htrim]) (by rw [hspan,Text.trim_nil]) hb hs
  rwa [hspan] at hsplit

/-- A decimal is read as such before anything that does not continue it. -/
theorem split_decimal_append (hs : s ≠ []) (hvisible : ∀ c ∈ s.head?, Text.isBlank c = false)
    (hstart : ∀ c ∈ s.head?, isNumericStart c = false)
    (h : (spanMantissa number).2 ≠ [] ∨ s.head? ≠ some '_' ∧ ¬StartsExponent s) :
    split (number ++ s) = readParts number s := by
  obtain ⟨b,hb,hs'⟩ := Text.exists_eq_trim_append hvisible
  have hrest := Text.trim_ne_nil hvisible hs
  have hspan : spanDecimal (number ++ Text.trim s) = (number,Text.trim s) := by
    rw [spanDecimal_append_of,spanDecimal_of_fst_eq hn,List.nil_append]
    · rwa [Text.head?_trim hvisible]
    · rw [Text.head?_trim hvisible]
      refine h.imp_right fun h => ⟨h.1,fun hexponent => h.2 ?_⟩
      rw [hs']
      exact hexponent.append b
  have htrimmed := (isTrimmed_of_decimal hn).append (Text.isTrimmed_trim s) hne hrest []
  have hall : Text.trim (number ++ s) = number ++ Text.trim s := by
    have hwhole : number ++ s = [] ++ (number ++ [] ++ Text.trim s) ++ b := by
      conv_lhs => rw [hs']
      simp
    rw [hwhole,Text.trim_append (by simp) htrimmed hb,List.append_nil]
  rw [split_of_ne_nil (by simp [hall,hne]),hall,spanNumber_of_spanDecimal hne hspan]
  exact readParts_congr number (Text.trim_trim s)

end Decimal

end Mensura.Measurement
