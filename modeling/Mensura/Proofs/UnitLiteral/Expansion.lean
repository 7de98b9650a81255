import Mensura.Proofs.Decimal.Numeral
import Mensura.Proofs.Measurement.Split
import Mensura.Proofs.Numeric.Width
import Mensura.UnitLiteral

/-! Which literals are numbers: those that start with a digit, and no others. Their values are
decimals, so none of them is negative. -/
namespace Mensura.UnitLiteral
open Decimal (IsFraction IsExponent)

theorem isDigit_of_mem_withoutUnderscores {s : List Char} (hs : ∀ c ∈ s, isDecimalChar c = true) :
    ∀ c ∈ withoutUnderscores s, c.isDigit = true :=
  Decimal.isDigit_of_mem_filter fun c hc => by simpa [isDecimalChar] using hs c hc

theorem isDecimalChar_of_mem_takeWhile {s : List Char} :
    ∀ c ∈ s.takeWhile isDecimalChar, isDecimalChar c = true :=
  fun _ hc => List.mem_takeWhile_imp hc

theorem isFraction_spanFraction (s : List Char) :
    IsFraction (withoutUnderscores (spanFraction s).1) := by
  unfold spanFraction
  split
  · exact .inr ⟨_,isDigit_of_mem_withoutUnderscores isDecimalChar_of_mem_takeWhile,rfl⟩
  · exact .inl rfl

theorem withoutUnderscores_append (s t : List Char) :
    withoutUnderscores (s ++ t) = withoutUnderscores s ++ withoutUnderscores t :=
  List.filter_append ..

theorem isExponent_withoutUnderscores {c : Char} {sign digits : List Char} (hc : c = 'e' ∨ c = 'E')
    (hsign : sign ∈ [[],['+'],['-']]) (hdigits : ∀ c ∈ digits, isDecimalChar c = true)
    (hdigit : digits.any Char.isDigit = true) :
    IsExponent (withoutUnderscores (c::(sign ++ digits))) := by
  have hletter : c ∈ ['e','E'] := by simpa using hc
  have hfixed : withoutUnderscores (c::sign) = c::sign := Decimal.filter_letter_sign hletter hsign
  refine .inr ⟨c,hletter,sign,hsign,withoutUnderscores digits,?_,
    isDigit_of_mem_withoutUnderscores hdigits,?_⟩
  · obtain ⟨d,hd,hdigit⟩ := List.any_eq_true.mp hdigit
    exact List.ne_nil_of_mem (Decimal.mem_filter_of_isDigit hd hdigit)
  · rw [← List.cons_append,withoutUnderscores_append,hfixed,List.cons_append]

theorem isExponent_spanExponent (s : List Char) :
    IsExponent (withoutUnderscores (spanExponent s).1) := by
  cases s with
  | nil => exact .inl rfl
  | cons c s =>
    simp only [spanExponent]
    split
    · rename_i h
      exact isExponent_withoutUnderscores h.1 (Measurement.spanSign_fst_mem _)
        isDecimalChar_of_mem_takeWhile h.2
    · exact .inl rfl

/-- What is left behind the exponent is the suffix. -/
theorem exists_readDecimal? {c : Char} (hc : c.isDigit = true) (s : List Char) :
    ∃ m e, readDecimal? (c::s) = some ⟨Scalar.ofDecimal m e,
      (spanExponent (spanFraction ((c::s).dropWhile isDecimalChar)).2).2⟩ := by
  have hdecimal : isDecimalChar c = true := by simp [isDecimalChar,hc]
  have hmem : c ∈ withoutUnderscores ((c::s).takeWhile isDecimalChar) :=
    Decimal.mem_filter_of_isDigit (by simp [hdecimal]) hc
  have hfraction := isFraction_spanFraction ((c::s).dropWhile isDecimalChar)
  obtain ⟨m,e,hread⟩ := Decimal.exists_readNumber?
    (isDigit_of_mem_withoutUnderscores isDecimalChar_of_mem_takeWhile) hfraction
    ⟨c,List.mem_append_left _ hmem,hc⟩
    (isExponent_spanExponent (spanFraction ((c::s).dropWhile isDecimalChar)).2)
  refine ⟨m,e,?_⟩
  simp only [readDecimal?,withoutUnderscores_append,List.append_assoc,hread,Option.map_some]

namespace Number

theorem exists_read? {c : Char} (hc : c.isDigit = true) (s : List Char) :
    ∃ n, read? (c::s) = some n ∧ ∃ m e, n.value = Scalar.ofDecimal m e := by
  unfold read?
  split
  · exact ⟨_,rfl,_,_,rfl⟩
  · exact ⟨_,rfl,_,_,rfl⟩
  · exact ⟨_,rfl,_,_,rfl⟩
  · rename_i heq
    obtain ⟨rfl,rfl⟩ := List.cons.inj heq
    obtain ⟨m,e,hread⟩ := exists_readDecimal? hc s
    exact ⟨_,(if_pos hc).trans hread,m,e,rfl⟩
  · rename_i heq
    cases heq

theorem isDigit_of_read? {s : List Char} {n : Number} (h : read? s = some n) :
    ∃ c t, s = c::t ∧ c.isDigit = true := by
  unfold read? at h
  split at h
  · exact ⟨_,_,rfl,rfl⟩
  · exact ⟨_,_,rfl,rfl⟩
  · exact ⟨_,_,rfl,rfl⟩
  · split at h
    · rename_i hc
      exact ⟨_,_,rfl,hc⟩
    · cases h
  · cases h

theorem isNegative_value {s : List Char} {n : Number} (h : read? s = some n) :
    Scalar.isNegative n.value = false := by
  obtain ⟨c,t,rfl,hc⟩ := isDigit_of_read? h
  obtain ⟨n',hn',m,e,hvalue⟩ := exists_read? hc t
  cases h.symm.trans hn'
  rw [hvalue]
  exact Scalar.isNegative_ofDecimal m e

end Number

/-! What an expansion changes: every unit literal, however deep in groups it stands, becomes a call
of the constructor of its unit, and nothing else does. It fails if the number of a unit literal is
too large, and tells of the first of these. -/

/-- The literal is a number with a unit as its suffix. -/
structure IsUnitLiteral (s : List Char) (n : Number) : Prop where
  read : Number.read? s = some n
  suffix_ne_nil : n.suffix ≠ []
  suffix_not_mem : n.suffix ∉ typeSuffixes

/-- The number of the literal, should it have a unit, is finite. -/
def IsInRange (s : List Char) : Prop := ∀ n, IsUnitLiteral s n → Scalar.isFinite n.value = true

/-- The second stream is the first one with every unit literal replaced by the ten tokens of
`::dimsafe::literals::unit(number)`. -/
inductive IsExpansion : List Token → List Token → Prop
  | nil : IsExpansion [] []
  | unit {s : List Char} {n : Number} {ts us : List Token} (hs : IsUnitLiteral s n)
      (hfinite : Scalar.isFinite n.value = true) (rest : IsExpansion ts us) :
      IsExpansion (.literal s::ts)
        (.punctuation ':'::.punctuation ':'::.identifier "dimsafe".toList::
          .punctuation ':'::.punctuation ':'::.identifier "literals".toList::
          .punctuation ':'::.punctuation ':'::.identifier n.suffix::
          .group .parenthesis [.literal (Decimal.pointText n.value)]::us)
  | literal {s : List Char} {ts us : List Token} (hs : ∀ n, ¬IsUnitLiteral s n)
      (rest : IsExpansion ts us) : IsExpansion (.literal s::ts) (.literal s::us)
  | identifier {name : List Char} {ts us : List Token} (rest : IsExpansion ts us) :
      IsExpansion (.identifier name::ts) (.identifier name::us)
  | punctuation {c : Char} {ts us : List Token} (rest : IsExpansion ts us) :
      IsExpansion (.punctuation c::ts) (.punctuation c::us)
  | group {d : Delimiter} {ts us vs ws : List Token} (inner : IsExpansion ts us)
      (rest : IsExpansion vs ws) : IsExpansion (.group d ts::vs) (.group d us::ws)

mutual

def Token.literals : Token → List (List Char)
  | .literal s => [s]
  | .group _ ts => literals ts
  | .identifier _ | .punctuation _ => []

/-- The literals in the order in which they are written, whatever groups they are in. -/
def literals : List Token → List (List Char)
  | [] => []
  | t::ts => t.literals ++ literals ts

end

/-- What holds of all streams: it holds at the end, and it is kept by one more token, and by a group
of which it holds. -/
theorem stream_induction {P : List Token → Prop} (nil : P [])
    (literal : ∀ s ts, P ts → P (.literal s::ts))
    (identifier : ∀ name ts, P ts → P (.identifier name::ts))
    (punctuation : ∀ c ts, P ts → P (.punctuation c::ts))
    (group : ∀ d ts us, P ts → P us → P (.group d ts::us)) : ∀ ts, P ts
  | [] => nil
  | .literal s::ts => literal s ts
      (stream_induction nil literal identifier punctuation group ts)
  | .identifier name::ts => identifier name ts
      (stream_induction nil literal identifier punctuation group ts)
  | .punctuation c::ts => punctuation c ts
      (stream_induction nil literal identifier punctuation group ts)
  | .group d ts::us => group d ts us
      (stream_induction nil literal identifier punctuation group ts)
      (stream_induction nil literal identifier punctuation group us)

/-- The literal is the first one of the list whose number is too large. -/
def IsFirstTooLarge (s : List Char) (ss : List (List Char)) : Prop :=
  ∃ a b, ss = a ++ s::b ∧ (∀ x ∈ a, IsInRange x) ∧ ¬IsInRange s

theorem isFirstTooLarge_append_iff {s : List Char} {ss rs : List (List Char)} :
    IsFirstTooLarge s (ss ++ rs) ↔
      IsFirstTooLarge s ss ∨ (∀ x ∈ ss, IsInRange x) ∧ IsFirstTooLarge s rs := by
  constructor
  · rintro ⟨a,b,hsplit,ha,hs⟩
    rcases List.append_eq_append_iff.mp hsplit with ⟨c,rfl,hc⟩ | ⟨c,rfl,hc⟩
    · obtain ⟨hss,hc'⟩ := List.forall_mem_append.mp ha
      exact .inr ⟨hss,c,b,hc,hc',hs⟩
    · cases c with
      | nil => exact .inr ⟨by simpa using ha,[],b,by simpa using hc.symm,by simp,hs⟩
      | cons d c =>
        obtain ⟨rfl,-⟩ := List.cons.inj hc
        exact .inl ⟨a,c,rfl,ha,hs⟩
  · rintro (⟨a,b,rfl,ha,hs⟩ | ⟨hss,a,b,rfl,ha,hs⟩)
    · exact ⟨a,b ++ rs,by simp,ha,hs⟩
    · exact ⟨ss ++ a,b,by simp,List.forall_mem_append.mpr ⟨hss,ha⟩,hs⟩

theorem isFirstTooLarge_singleton_iff {s r : List Char} :
    IsFirstTooLarge s [r] ↔ s = r ∧ ¬IsInRange s := by
  constructor
  · rintro ⟨a,b,hsplit,-,hs⟩
    have hmem : s ∈ [r] := hsplit ▸ by simp
    exact ⟨List.mem_singleton.mp hmem,hs⟩
  · rintro ⟨rfl,hs⟩
    exact ⟨[],[],rfl,by simp,hs⟩

theorem isUnitSuffix_iff {s : List Char} : isUnitSuffix s = true ↔ s ≠ [] ∧ s ∉ typeSuffixes := by
  simp [isUnitSuffix]

theorem isUnitLiteral_iff {s : List Char} {n : Number} :
    IsUnitLiteral s n ↔ Number.read? s = some n ∧ isUnitSuffix n.suffix = true := by
  rw [isUnitSuffix_iff]
  exact ⟨fun h => ⟨h.read,h.suffix_ne_nil,h.suffix_not_mem⟩,fun h => ⟨h.1,h.2.1,h.2.2⟩⟩

theorem expandLiteral_of_isUnitLiteral {s : List Char} {n : Number} (h : IsUnitLiteral s n) :
    expandLiteral s = if Scalar.isFinite n.value then .ok (constructorCall n.suffix n.value)
      else .error (.tooLarge s) := by
  obtain ⟨hread,hsuffix⟩ := isUnitLiteral_iff.mp h
  simp [expandLiteral,hread,hsuffix]

theorem expandLiteral_of_not {s : List Char} (h : ∀ n, ¬IsUnitLiteral s n) :
    expandLiteral s = .ok [.literal s] := by
  unfold expandLiteral
  split
  · rfl
  · rename_i n hread
    have hsuffix : isUnitSuffix n.suffix = false := by
      by_contra hunit
      exact h n (isUnitLiteral_iff.mpr ⟨hread,by simpa using hunit⟩)
    simp [hsuffix]

theorem expandToken_literal (s : List Char) : expandToken (.literal s) = expandLiteral s := by
  rw [expandToken]

theorem expandToken_group (d : Delimiter) (ts : List Token) :
    expandToken (.group d ts) = (expand ts).map fun us => [.group d us] := by
  rw [expandToken]
  cases expand ts <;> rfl

theorem expandToken_identifier (name : List Char) :
    expandToken (.identifier name) = .ok [.identifier name] := by
  rw [expandToken] <;> simp

theorem expandToken_punctuation (c : Char) :
    expandToken (.punctuation c) = .ok [.punctuation c] := by
  rw [expandToken] <;> simp

theorem expand_cons_of_ok {t : Token} {us : List Token} (h : expandToken t = .ok us)
    (ts : List Token) : expand (t::ts) = (expand ts).map (us ++ ·) := by
  rw [expand,h]
  cases expand ts <;> rfl

theorem expand_cons_of_error {t : Token} {fault : Fault} (h : expandToken t = .error fault)
    (ts : List Token) : expand (t::ts) = .error fault := by
  rw [expand,h]
  rfl

theorem IsExpansion.expand_eq {ts us : List Token} (h : IsExpansion ts us) :
    expand ts = .ok us := by
  induction h with
  | nil => exact expand_nil
  | @unit s n ts us hs hfinite rest ih =>
    have hcall : expandToken (.literal s) = .ok (constructorCall n.suffix n.value) := by
      rw [expandToken_literal,expandLiteral_of_isUnitLiteral hs,hfinite]
      rfl
    rw [expand_cons_of_ok hcall,ih]
    rfl
  | @literal s ts us hs rest ih =>
    have hsame : expandToken (.literal s) = .ok [.literal s] := by
      rw [expandToken_literal,expandLiteral_of_not hs]
    rw [expand_cons_of_ok hsame,ih]
    rfl
  | @identifier name ts us rest ih =>
    rw [expand_cons_of_ok (expandToken_identifier name),ih]
    rfl
  | @punctuation c ts us rest ih =>
    rw [expand_cons_of_ok (expandToken_punctuation c),ih]
    rfl
  | @group d ts us vs ws inner rest ihinner ihrest =>
    have hgroup : expandToken (.group d ts) = .ok [.group d us] := by
      rw [expandToken_group,ihinner]
      rfl
    rw [expand_cons_of_ok hgroup,ihrest]
    rfl

theorem exists_isExpansion {ts : List Token} (h : ∀ s ∈ literals ts, IsInRange s) :
    ∃ us, IsExpansion ts us := by
  induction ts using stream_induction with
  | nil => exact ⟨[],.nil⟩
  | literal s ts ih =>
    obtain ⟨hs,hts⟩ := List.forall_mem_cons.mp h
    obtain ⟨us,hus⟩ := ih hts
    by_cases hunit : ∃ n, IsUnitLiteral s n
    · obtain ⟨n,hn⟩ := hunit
      exact ⟨_,.unit hn (hs n hn) hus⟩
    · exact ⟨_,.literal (not_exists.mp hunit) hus⟩
  | identifier name ts ih =>
    obtain ⟨us,hus⟩ := ih h
    exact ⟨_,.identifier hus⟩
  | punctuation c ts ih =>
    obtain ⟨us,hus⟩ := ih h
    exact ⟨_,.punctuation hus⟩
  | group d ts us ihts ihus =>
    obtain ⟨hts,hus⟩ := List.forall_mem_append.mp h
    obtain ⟨vs,hvs⟩ := ihts hts
    obtain ⟨ws,hws⟩ := ihus hus
    exact ⟨_,.group hvs hws⟩

theorem expandLiteral_of_not_isInRange {s : List Char} (h : ¬IsInRange s) :
    expandLiteral s = .error (.tooLarge s) := by
  obtain ⟨n,hn⟩ := not_forall.mp h
  obtain ⟨hs,hlarge⟩ := Classical.not_imp.mp hn
  rw [expandLiteral_of_isUnitLiteral hs,if_neg hlarge]

theorem exists_expandLiteral {s : List Char} (h : IsInRange s) :
    ∃ us, expandLiteral s = .ok us := by
  by_cases hunit : ∃ n, IsUnitLiteral s n
  · obtain ⟨n,hn⟩ := hunit
    exact ⟨_,(expandLiteral_of_isUnitLiteral hn).trans (if_pos (h n hn))⟩
  · exact ⟨_,expandLiteral_of_not (not_exists.mp hunit)⟩

theorem expand_of_isFirstTooLarge {s : List Char} {ts : List Token}
    (h : IsFirstTooLarge s (literals ts)) : expand ts = .error (.tooLarge s) := by
  induction ts using stream_induction with
  | nil =>
    obtain ⟨a,b,hnil,-,-⟩ := h
    simp [literals] at hnil
  | literal r ts ih =>
    rcases isFirstTooLarge_append_iff.mp h with hr | ⟨hr,hts⟩
    · obtain ⟨rfl,hlarge⟩ := isFirstTooLarge_singleton_iff.mp hr
      apply expand_cons_of_error
      rw [expandToken_literal,expandLiteral_of_not_isInRange hlarge]
    · obtain ⟨us,hus⟩ := exists_expandLiteral (hr r List.mem_cons_self)
      rw [expand_cons_of_ok ((expandToken_literal r).trans hus),ih hts]
      rfl
  | identifier name ts ih =>
    rw [expand_cons_of_ok (expandToken_identifier name),ih h]
    rfl
  | punctuation c ts ih =>
    rw [expand_cons_of_ok (expandToken_punctuation c),ih h]
    rfl
  | group d ts us ihts ihus =>
    rcases isFirstTooLarge_append_iff.mp h with hts | ⟨hts,hus⟩
    · apply expand_cons_of_error
      rw [expandToken_group,ihts hts]
      rfl
    · obtain ⟨vs,hvs⟩ := exists_isExpansion hts
      have hgroup : expandToken (.group d ts) = .ok [.group d vs] := by
        rw [expandToken_group,hvs.expand_eq]
        rfl
      rw [expand_cons_of_ok hgroup,ihus hus]
      rfl

theorem forall_or_isFirstTooLarge (ss : List (List Char)) :
    (∀ s ∈ ss, IsInRange s) ∨ ∃ s, IsFirstTooLarge s ss := by
  induction ss with
  | nil => simp
  | cons s ss ih =>
    by_cases hs : IsInRange s
    · rcases ih with hss | ⟨r,hr⟩
      · exact .inl (List.forall_mem_cons.mpr ⟨hs,hss⟩)
      · exact .inr ⟨r,isFirstTooLarge_append_iff.mpr
        (.inr ⟨List.forall_mem_singleton.mpr hs,hr⟩)⟩
    · exact .inr ⟨s,[],ss,rfl,by simp,hs⟩

theorem expand_eq_ok_iff {ts us : List Token} : expand ts = .ok us ↔ IsExpansion ts us := by
  constructor
  · intro h
    rcases forall_or_isFirstTooLarge (literals ts) with hall | ⟨s,hs⟩
    · obtain ⟨vs,hvs⟩ := exists_isExpansion hall
      cases h.symm.trans hvs.expand_eq
      exact hvs
    · cases h.symm.trans (expand_of_isFirstTooLarge hs)
  · exact IsExpansion.expand_eq

theorem IsExpansion.append {ts us vs ws : List Token} (h : IsExpansion ts us)
    (hrest : IsExpansion vs ws) : IsExpansion (ts ++ vs) (us ++ ws) := by
  induction h with
  | nil => exact hrest
  | unit hs hfinite _ ih => exact .unit hs hfinite ih
  | literal hs _ ih => exact .literal hs ih
  | identifier _ ih => exact .identifier ih
  | punctuation _ ih => exact .punctuation ih
  | group inner _ _ ih => exact .group inner ih

end Mensura.UnitLiteral
