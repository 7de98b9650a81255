import Mensura.Decimal
import Mensura.Proofs.Text

/-! Texts that are read as numbers. An integer is digits, and perhaps a minus sign in front of them;
the reader of integers accepts a plus sign in its place, and nothing else. -/
namespace Mensura.Decimal

variable {s : List Char}

/-- Digits that write the number; zeros may come first. -/
structure IsNatural (s : List Char) (n : Nat) : Prop where
  ne_nil : s ≠ []
  isDigit : ∀ c ∈ s, c.isDigit = true
  value : Nat.ofDigitChars 10 s 0 = n

inductive IsInteger : List Char → Int → Prop
  | natural {s : List Char} {n : Nat} (h : IsNatural s n) : IsInteger s n
  | negative {s : List Char} {n : Nat} (h : IsNatural s n) : IsInteger ('-'::s) (-n)

theorem readNat?_eq_some_iff {n : Nat} : readNat? s = some n ↔ IsNatural s n := by
  unfold readNat?
  rw [Option.ite_none_right_eq_some,List.all_eq_true,Option.some.injEq]
  exact ⟨fun h => ⟨h.1.1,h.1.2,h.2⟩,fun h => ⟨⟨h.ne_nil,h.isDigit⟩,h.value⟩⟩

theorem isNatural_toDigits (n : Nat) : IsNatural (Nat.toDigits 10 n) n :=
  readNat?_eq_some_iff.mp (readNat?_toDigits n)

theorem isInteger_writeInt (n : Int) : IsInteger (writeInt n) n := by
  have hdigits := isNatural_toDigits n.natAbs
  unfold writeInt
  split
  · rename_i hneg
    have hint := IsInteger.negative hdigits
    rwa [Int.ofNat_natAbs_of_nonpos (by omega),Int.neg_neg] at hint
  · rename_i hpos
    have hint := IsInteger.natural hdigits
    rwa [Int.natAbs_of_nonneg (by omega)] at hint

namespace IsNatural

theorem endsIn_isDigit {n : Nat} (h : IsNatural s n) : Text.endsIn Char.isDigit s = true :=
  Text.endsIn_eq_true_of_forall h.ne_nil h.isDigit

theorem exists_cons {n : Nat} (h : IsNatural s n) :
    ∃ c t, s = c::t ∧ c.isDigit = true := by
  obtain ⟨c,t,rfl⟩ := List.exists_cons_of_ne_nil h.ne_nil
  exact ⟨c,t,rfl,h.isDigit c List.mem_cons_self⟩

end IsNatural

namespace IsInteger
variable {n : Int}

theorem ne_nil (h : IsInteger s n) : s ≠ [] := by
  cases h with
  | natural h => exact h.ne_nil
  | negative => exact List.cons_ne_nil _ _

theorem eq_minus_or_isDigit (h : IsInteger s n) : ∀ c ∈ s, c = '-' ∨ c.isDigit = true := by
  cases h with
  | natural h => exact fun c hc => .inr (h.isDigit c hc)
  | negative h =>
    intro c hc
    exact (List.mem_cons.mp hc).imp_right (h.isDigit c)

theorem endsIn_isDigit (h : IsInteger s n) : Text.endsIn Char.isDigit s = true := by
  cases h with
  | natural h => exact h.endsIn_isDigit
  | negative h =>
    rw [← List.singleton_append,Text.endsIn_append h.ne_nil]
    exact h.endsIn_isDigit

theorem head?_ne_plus (h : IsInteger s n) : s.head? ≠ some '+' := by
  intro hplus
  rcases h.eq_minus_or_isDigit '+' (List.mem_of_head? hplus) with heq | hdigit
  · exact absurd heq (by decide)
  · exact absurd hdigit (by decide)

end IsInteger

/-- A plus sign and digits are read as well. -/
theorem readInt?_eq_some_iff {n : Int} : readInt? s = some n ↔
    IsInteger s n ∨ ∃ t m, s = '+'::t ∧ IsNatural t m ∧ n = m := by
  constructor
  · intro h
    unfold readInt? at h
    split at h
    all_goals
      obtain ⟨m,hm,rfl⟩ := Option.map_eq_some_iff.mp h
      have hnatural := readNat?_eq_some_iff.mp hm
    · exact .inl (.negative hnatural)
    · exact .inr ⟨_,m,rfl,hnatural,rfl⟩
    · exact .inl (.natural hnatural)
  · rintro (h | ⟨t,m,rfl,hm,rfl⟩)
    · cases h with
      | natural h =>
        obtain ⟨c,t,rfl,hc⟩ := h.exists_cons
        rw [readInt?_of_isDigit t hc,readNat?_eq_some_iff.mpr h]
        rfl
      | negative h => simp [readInt?,readNat?_eq_some_iff.mpr h]
    · simp [readInt?,readNat?_eq_some_iff.mpr hm]

/-! Numerals that can be read: digits, perhaps a point and more digits, perhaps an exponent with
digits of its own. -/

variable {digits fraction exponent : List Char}

/-- A point and the digits after it, or nothing. -/
def IsFraction (s : List Char) : Prop :=
  s = [] ∨ ∃ digits : List Char, (∀ c ∈ digits, c.isDigit = true) ∧ s = '.'::digits

/-- A letter, perhaps a sign, and digits; or nothing. -/
def IsExponent (s : List Char) : Prop :=
  s = [] ∨ ∃ letter ∈ ['e','E'], ∃ sign ∈ [[],['+'],['-']], ∃ digits : List Char,
    digits ≠ [] ∧ (∀ c ∈ digits, c.isDigit = true) ∧ s = letter::(sign ++ digits)

/-! The underscores among digits are left out before they are read. -/

theorem isDigit_of_mem_filter {s : List Char} (hs : ∀ c ∈ s, c.isDigit = true ∨ c = '_') :
    ∀ c ∈ s.filter (· ≠ '_'), c.isDigit = true := by
  intro c hc
  obtain ⟨hmem,hne⟩ := List.mem_filter.mp hc
  exact (hs c hmem).resolve_right (by simpa using hne)

theorem mem_filter_of_isDigit {s : List Char} {c : Char} (hmem : c ∈ s) (hc : c.isDigit = true) :
    c ∈ s.filter (· ≠ '_') :=
  List.mem_filter.mpr ⟨hmem,by simpa using Text.ne_of_isDigit hc rfl⟩

theorem filter_eq_of_forall_isDigit (hdigits : ∀ c ∈ digits, c.isDigit = true) :
    digits.filter (· ≠ '_') = digits :=
  List.filter_eq_self.mpr fun c hc => by simpa using Text.ne_of_isDigit (hdigits c hc) rfl

theorem filter_sign {sign : List Char} (hsign : sign ∈ [[],['+'],['-']]) :
    sign.filter (· ≠ '_') = sign := by
  simp only [List.mem_cons,List.not_mem_nil,or_false] at hsign
  rcases hsign with rfl | rfl | rfl <;> rfl

/-- What comes before the digits of an exponent has no underscores. -/
theorem filter_letter_sign {letter : Char} {sign : List Char} (hletter : letter ∈ ['e','E'])
    (hsign : sign ∈ [[],['+'],['-']]) : (letter::sign).filter (· ≠ '_') = letter::sign := by
  have hne : letter ≠ '_' := by
    rintro rfl
    simp at hletter
  rw [List.filter_cons_of_pos (by simpa using hne),filter_sign hsign]

/-- A run of characters that satisfy the test, before one that does not. -/
theorem span_of_forall {p : Char → Bool} {s t : List Char} (hs : ∀ c ∈ s, p c = true)
    (ht : ∀ c ∈ t.head?, p c = false) :
    (s ++ t).takeWhile p = s ∧ (s ++ t).dropWhile p = t := by
  rw [List.takeWhile_append_of_pos hs,List.dropWhile_append_of_pos hs]
  cases t with
  | nil => simp
  | cons c t => simp [ht c rfl]

theorem spanDigits_of_forall {rest : List Char} (hdigits : ∀ c ∈ digits, c.isDigit = true)
    (hrest : ∀ c ∈ rest.head?, c.isDigit = false) : spanDigits (digits ++ rest) = (digits,rest) :=
  Prod.ext (span_of_forall hdigits hrest).1 (span_of_forall hdigits hrest).2

theorem exists_readNat? (hne : digits ≠ []) (hdigits : ∀ c ∈ digits, c.isDigit = true) :
    ∃ n, readNat? digits = some n :=
  ⟨Nat.ofDigitChars 10 digits 0,if_pos ⟨hne,List.all_eq_true.mpr hdigits⟩⟩

theorem exists_readInt? {sign : List Char} (hsign : sign ∈ [[],['+'],['-']]) (hne : digits ≠ [])
    (hdigits : ∀ c ∈ digits, c.isDigit = true) : ∃ n, readInt? (sign ++ digits) = some n := by
  obtain ⟨n,hn⟩ := exists_readNat? hne hdigits
  simp only [List.mem_cons,List.not_mem_nil,or_false] at hsign
  rcases hsign with rfl | rfl | rfl
  · obtain ⟨c,digits,rfl⟩ := List.exists_cons_of_ne_nil hne
    refine ⟨n,?_⟩
    rw [List.nil_append,readInt?_of_isDigit digits (hdigits c List.mem_cons_self),hn]
    rfl
  · exact ⟨n,by simp [readInt?,hn]⟩
  · exact ⟨-n,by simp [readInt?,hn]⟩

namespace IsExponent

theorem exists_readExponent? (h : IsExponent exponent) : ∃ e, readExponent? exponent = some e := by
  rcases h with rfl | ⟨letter,hletter,sign,hsign,digits,hne,hdigits,rfl⟩
  · exact ⟨0,rfl⟩
  · obtain ⟨e,he⟩ := exists_readInt? hsign hne hdigits
    simp only [List.mem_cons,List.not_mem_nil,or_false] at hletter
    rcases hletter with rfl | rfl <;> exact ⟨e,he⟩

theorem head?_eq (h : IsExponent exponent) : ∀ c ∈ exponent.head?, c = 'e' ∨ c = 'E' := by
  rcases h with rfl | ⟨letter,hletter,sign,-,digits,-,-,rfl⟩
  · simp
  · simpa using hletter

theorem head?_not_isDigit (h : IsExponent exponent) : ∀ c ∈ exponent.head?, c.isDigit = false := by
  intro c hc
  rcases h.head?_eq c hc with rfl | rfl <;> rfl

theorem spanFraction_eq (h : IsExponent exponent) : spanFraction exponent = ([],exponent) := by
  cases exponent with
  | nil => rfl
  | cons c exponent => rcases h.head?_eq c rfl with rfl | rfl <;> rfl

end IsExponent

section
variable (hdigits : ∀ c ∈ digits, c.isDigit = true) (hfraction : IsFraction fraction)
  (hdigit : ∃ c ∈ digits ++ fraction, c.isDigit = true)
include hdigits hfraction hdigit

/-- There may be no digits before the point if there are some after it. -/
theorem exists_readDecimal? (hexponent : IsExponent exponent) :
    ∃ m e, readDecimal? (digits ++ (fraction ++ exponent)) = some (m,e) := by
  obtain ⟨e,he⟩ := hexponent.exists_readExponent?
  rcases hfraction with rfl | ⟨ds,hds,rfl⟩
  · have hspan := spanDigits_of_forall hdigits hexponent.head?_not_isDigit
    have hne : digits ≠ [] := by
      rintro rfl
      simp at hdigit
    simp [readDecimal?,hspan,hexponent.spanFraction_eq,hne,he]
  · have hspan : spanDigits (digits ++ '.'::(ds ++ exponent)) = (digits,'.'::(ds ++ exponent)) :=
      spanDigits_of_forall hdigits (by simp)
    have hpoint : spanFraction ('.'::(ds ++ exponent)) = (ds,exponent) :=
      spanDigits_of_forall hds hexponent.head?_not_isDigit
    have hne : ¬(digits = [] ∧ ds = []) := by
      rintro ⟨rfl,rfl⟩
      simp at hdigit
    simp [readDecimal?,hspan,hpoint,hne,he]

theorem head?_ne_sign (s : List Char) :
    ∀ c ∈ (digits ++ (fraction ++ s)).head?, c ≠ '+' ∧ c ≠ '-' := by
  cases digits with
  | cons d digits =>
    have hsign := Text.ne_sign_of_isDigit (hdigits d List.mem_cons_self)
    simpa using hsign
  | nil =>
    rcases hfraction with rfl | ⟨ds,-,rfl⟩
    · simp at hdigit
    · simp

end

theorem readNumber?_of_head? {s : List Char} (h : ∀ c ∈ s.head?, c ≠ '+' ∧ c ≠ '-') :
    readNumber? s = readMagnitude? s := by
  unfold readNumber?
  split
  · exact absurd rfl (h '-' rfl).2
  · exact absurd rfl (h '+' rfl).1
  · rfl

/-- A numeral without a sign is read as a decimal, never as a special value. -/
theorem exists_readNumber? (hdigits : ∀ c ∈ digits, c.isDigit = true)
    (hfraction : IsFraction fraction) (hdigit : ∃ c ∈ digits ++ fraction, c.isDigit = true)
    (hexponent : IsExponent exponent) :
    ∃ m e, readNumber? (digits ++ (fraction ++ exponent)) = some (Scalar.ofDecimal m e) := by
  obtain ⟨m,e,hread⟩ := exists_readDecimal? hdigits hfraction hdigit hexponent
  refine ⟨m,e,?_⟩
  rw [readNumber?_of_head? (head?_ne_sign hdigits hfraction hdigit exponent)]
  simp only [readMagnitude?,hread]

/-- A sign, if there is one, and a decimal fraction with a digit at least; then perhaps an
exponent. -/
inductive IsNumeral : List Char → Prop
  | intro {sign digits fraction exponent : List Char} (hsign : sign ∈ [[],['+'],['-']])
      (hdigits : ∀ c ∈ digits, c.isDigit = true) (hfraction : IsFraction fraction)
      (hdigit : ∃ c ∈ digits ++ fraction, c.isDigit = true) (hexponent : IsExponent exponent) :
      IsNumeral (sign ++ (digits ++ (fraction ++ exponent)))

theorem IsNumeral.exists_readNumber? {s : List Char} (h : IsNumeral s) :
    ∃ x, readNumber? s = some x := by
  obtain @⟨sign,digits,fraction,exponent,hsign,hdigits,hfraction,hdigit,hexponent⟩ := h
  obtain ⟨m,e,hread⟩ := Decimal.exists_readNumber? hdigits hfraction hdigit hexponent
  have hmagnitude := hread
  rw [readNumber?_of_head? (head?_ne_sign hdigits hfraction hdigit exponent)] at hmagnitude
  simp only [List.mem_cons,List.not_mem_nil,or_false] at hsign
  rcases hsign with rfl | rfl | rfl
  · exact ⟨_,hread⟩
  · exact ⟨_,hmagnitude⟩
  · exact ⟨_,congrArg (Option.map fun x => -x) hmagnitude⟩

/-! All that can be read as a number: numerals and the names of the special values. No text is both,
and the value of a name is never finite. -/

variable {name sign : List Char} {x : Float}

def specialNames : List (List Char) := ["inf".toList,"infinity".toList,"nan".toList]

/-- Perhaps a sign, and a name with letters of either case. -/
inductive IsSpecial : List Char → Prop
  | intro {sign name : List Char} (hsign : sign ∈ [[],['+'],['-']])
      (hname : name.map Char.toLower ∈ specialNames) : IsSpecial (sign ++ name)

/-! What is read as a decimal is one. -/

theorem isExponent_of_readExponent? {e : Int} (h : readExponent? s = some e) : IsExponent s := by
  have hletter : ∀ letter ∈ ['e','E'], ∀ t, readInt? t = some e → IsExponent (letter::t) := by
    intro letter hletter t ht
    rcases readInt?_eq_some_iff.mp ht with hint | ⟨digits,n,rfl,hdigits,-⟩
    · cases hint with
      | natural hdigits =>
        exact .inr ⟨letter,hletter,[],by simp,t,hdigits.ne_nil,hdigits.isDigit,rfl⟩
      | negative hdigits =>
        exact .inr ⟨letter,hletter,['-'],by simp,_,hdigits.ne_nil,hdigits.isDigit,rfl⟩
    · exact .inr ⟨letter,hletter,['+'],by simp,digits,hdigits.ne_nil,hdigits.isDigit,rfl⟩
  unfold readExponent? at h
  split at h
  · exact .inl rfl
  · exact hletter 'e' (by simp) _ h
  · exact hletter 'E' (by simp) _ h
  · simp at h

/-- The point, if there is one, with the digits after it; and what follows them. -/
theorem exists_isFraction (s : List Char) : ∃ fraction, IsFraction fraction ∧
    s = fraction ++ (spanFraction s).2 ∧ ((spanFraction s).1 ≠ [] → ∃ c ∈ fraction, c.isDigit) := by
  unfold spanFraction
  split
  · rename_i t
    have hdigits : ∀ c ∈ (spanDigits t).1, c.isDigit = true := fun _ hc => List.mem_takeWhile_imp hc
    refine ⟨'.'::(spanDigits t).1,.inr ⟨_,hdigits,rfl⟩,by simp,fun hne => ?_⟩
    obtain ⟨d,hd⟩ := List.exists_mem_of_ne_nil _ hne
    exact ⟨d,List.mem_cons_of_mem _ hd,hdigits d hd⟩
  · exact ⟨[],.inl rfl,rfl,fun hne => absurd rfl hne⟩

theorem isNumeral_of_readDecimal? {m : Nat} {e : Int} (h : readDecimal? s = some (m,e))
    (hsign : sign ∈ [[],['+'],['-']]) : IsNumeral (sign ++ s) := by
  obtain ⟨fraction,hfraction,hrest,hfound⟩ := exists_isFraction (spanDigits s).2
  simp only [readDecimal?,Option.ite_none_left_eq_some,Option.map_eq_some_iff] at h
  obtain ⟨hne,k,hk,-⟩ := h
  have hdigits : ∀ c ∈ (spanDigits s).1, c.isDigit = true := fun _ hc => List.mem_takeWhile_imp hc
  have hdigit : ∃ c ∈ (spanDigits s).1 ++ fraction, c.isDigit = true := by
    by_cases hwhole : (spanDigits s).1 = []
    · obtain ⟨c,hc,hd⟩ := hfound fun hnil => hne ⟨hwhole,hnil⟩
      exact ⟨c,List.mem_append_right _ hc,hd⟩
    · obtain ⟨c,hc⟩ := List.exists_mem_of_ne_nil _ hwhole
      exact ⟨c,List.mem_append_left _ hc,hdigits c hc⟩
  rw [← spanDigits_append s,hrest]
  exact .intro hsign hdigits hfraction hdigit (isExponent_of_readExponent? hk)

/-! A name does not start like a decimal. -/

theorem readDecimal?_of_head? {c : Char} (hdigit : c.isDigit = false) (hpoint : c ≠ '.') :
    readDecimal? (c::s) = none := by
  simp [readDecimal?,spanDigits,hdigit,spanFraction,hpoint]

theorem exists_cons_of_mem_specialNames (h : name.map Char.toLower ∈ specialNames) :
    ∃ c t, name = c::t ∧ c.isDigit = false ∧ c ≠ '.' ∧ c ≠ '+' ∧ c ≠ '-' := by
  obtain ⟨c,t,rfl⟩ : ∃ c t, name = c::t := by
    apply List.exists_cons_of_ne_nil
    rintro rfl
    exact absurd h (by decide)
  have hc : c.toLower = 'i' ∨ c.toLower = 'n' := by
    simp only [specialNames,List.mem_cons,List.not_mem_nil,or_false,List.map_cons] at h
    rcases h with h | h | h
    · exact .inl (List.cons.inj h).1
    · exact .inl (List.cons.inj h).1
    · exact .inr (List.cons.inj h).1
  have hdigit : c.isDigit = false := by
    by_contra hno
    have hnot : ¬(c.toLower = 'i' ∨ c.toLower = 'n') :=
      Text.forall_isDigit (P := fun c => ¬(c.toLower = 'i' ∨ c.toLower = 'n')) (by decide)
        (by simpa using hno)
    exact hnot hc
  refine ⟨c,t,rfl,hdigit,?_,?_,?_⟩ <;> (rintro rfl; exact absurd hc (by decide))

/-- A special value is not finite, and its sign does not change that. -/
theorem of_readSpecial? (h : readSpecial? s = some x) :
    s.map Char.toLower ∈ specialNames ∧ Scalar.isFinite x = false ∧
      Scalar.isFinite (-x) = false := by
  simp only [readSpecial?] at h
  split_ifs at h with hinf hnan
  · cases h
    refine ⟨?_,by decide +kernel,by decide +kernel⟩
    rcases hinf with h | h <;> simp [specialNames,h]
  · cases h
    exact ⟨by simp [specialNames,hnan],by decide +kernel,by decide +kernel⟩

theorem exists_readSpecial? (h : s.map Char.toLower ∈ specialNames) :
    ∃ x, readSpecial? s = some x := by
  simp only [specialNames,List.mem_cons,List.not_mem_nil,or_false] at h
  rcases h with h | h | h
  · exact ⟨Scalar.infinity,by simp [readSpecial?,h]⟩
  · exact ⟨Scalar.infinity,by simp [readSpecial?,h]⟩
  · exact ⟨Scalar.nan,by simp [readSpecial?,h]⟩

theorem of_readMagnitude? (sign : List Char) (hsign : sign ∈ [[],['+'],['-']])
    (h : readMagnitude? s = some x) : IsNumeral (sign ++ s) ∨
      IsSpecial (sign ++ s) ∧ Scalar.isFinite x = false ∧ Scalar.isFinite (-x) = false := by
  unfold readMagnitude? at h
  split at h
  · rename_i m e hread
    exact .inl (isNumeral_of_readDecimal? hread hsign)
  · obtain ⟨hname,hfinite⟩ := of_readSpecial? h
    exact .inr ⟨.intro hsign hname,hfinite⟩

theorem of_readNumber? (h : readNumber? s = some x) :
    IsNumeral s ∨ IsSpecial s ∧ Scalar.isFinite x = false := by
  unfold readNumber? at h
  split at h
  · obtain ⟨y,hy,rfl⟩ := Option.map_eq_some_iff.mp h
    exact (of_readMagnitude? ['-'] (by simp) hy).imp_right fun h => ⟨h.1,h.2.2⟩
  · exact (of_readMagnitude? ['+'] (by simp) h).imp_right fun h => ⟨h.1,h.2.1⟩
  · exact (of_readMagnitude? [] (by simp) h).imp_right fun h => ⟨h.1,h.2.1⟩

theorem IsSpecial.exists_readNumber? (h : IsSpecial s) : ∃ x, readNumber? s = some x := by
  obtain ⟨hsign,hname⟩ := h
  obtain ⟨x,hx⟩ := exists_readSpecial? hname
  obtain ⟨c,t,rfl,hdigit,hpoint,hplus,hminus⟩ := exists_cons_of_mem_specialNames hname
  have hread : readMagnitude? (c::t) = some x := by
    rw [readMagnitude?,readDecimal?_of_head? hdigit hpoint]
    exact hx
  simp only [List.mem_cons,List.not_mem_nil,or_false] at hsign
  rcases hsign with rfl | rfl | rfl
  · rw [List.nil_append,readNumber?_of_head? (by simp [hplus,hminus])]
    exact ⟨x,hread⟩
  · exact ⟨x,hread⟩
  · exact ⟨-x,congrArg (Option.map fun y => -y) hread⟩

/-- Nothing else is read as a number. -/
theorem exists_readNumber?_iff : (∃ x, readNumber? s = some x) ↔ IsNumeral s ∨ IsSpecial s := by
  constructor
  · rintro ⟨x,hx⟩
    exact (of_readNumber? hx).imp_right And.left
  · rintro (h | h)
    · exact h.exists_readNumber?
    · exact h.exists_readNumber?

end Mensura.Decimal
