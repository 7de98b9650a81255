import Mensura.Proofs.Signature.Term
import Mensura.Registry.Basic

/-! Which words are powers of units, said by how they are written. An exponent is an integer after a
caret, or one in superscripts, or the digits at the end with the minus sign before them; a known
symbol and a word without any digits at the end have the exponent one. -/
namespace Mensura

namespace Text

theorem exists_raise_of_isSuperscript {c : Char} (h : isSuperscript c = true) :
    ∃ d ∈ raisable, raise d = c := by
  obtain ⟨d,hd⟩ := Option.isSome_iff_exists.mp h
  exact ⟨d,List.mem_of_find?_eq_some hd,by simpa using List.find?_some hd⟩

theorem exists_map_raise {s : List Char} (h : ∀ c ∈ s, isSuperscript c = true) :
    ∃ p : List Char, s = p.map raise ∧ ∀ c ∈ p, c ∈ raisable := by
  induction s with
  | nil => exact ⟨[],rfl,by simp⟩
  | cons c s ih =>
    obtain ⟨hc,hs⟩ := List.forall_mem_cons.mp h
    obtain ⟨d,hd,rfl⟩ := exists_raise_of_isSuperscript hc
    obtain ⟨p,rfl,hp⟩ := ih hs
    exact ⟨d::p,rfl,List.forall_mem_cons.mpr ⟨hd,hp⟩⟩

end Text

theorem Decimal.IsInteger.not_mem_caret {s : List Char} {n : Int} (h : IsInteger s n) :
    '^' ∉ s := fun hmem => absurd (h.mem_raisable '^' hmem) (by decide)

theorem Dimension.fits_one : fits 1 = true := by decide

namespace Signature
open Decimal (IsNatural IsInteger)

variable {known : List Char → Bool} {s p w : List Char} {n : Int} {t : Term}

/-- The ways in which a power is written as a word. They exclude each other: the caret is the first
one, the superscripts or digits at the end are all there are, and a minus sign before the digits
belongs to them. -/
inductive HasForm (known : List Char → Bool) : List Char → Term → Prop
  | caret {s p : List Char} {n : Int} (hs : '^' ∉ s) (hp : IsInteger p n) :
      HasForm known (s ++ '^'::p) ⟨s,n⟩
  | raised {s p : List Char} {n : Int} (hs : '^' ∉ s)
      (hend : Text.endsIn Text.isSuperscript s = false) (hp : IsInteger p n) :
      HasForm known (s ++ p.map Text.raise) ⟨s,n⟩
  | symbol {w : List Char} (hw : '^' ∉ w) (hend : Text.endsIn Text.isSuperscript w = false)
      (hknown : known w = true) : HasForm known w ⟨w,1⟩
  | trailing {s p : List Char} {n : Int} (hs : '^' ∉ s) (hknown : known (s ++ p) = false)
      (hp : IsInteger p n) (hmax : p.head? = some '-' ∨
        Text.endsIn Char.isDigit s = false ∧ s.getLast? ≠ some '-') : HasForm known (s ++ p) ⟨s,n⟩
  | plain {w : List Char} (hw : '^' ∉ w) (hend : Text.endsIn Text.isSuperscript w = false)
      (hknown : known w = false) (hdigit : Text.endsIn Char.isDigit w = false) :
      HasForm known w ⟨w,1⟩

/-- The exponent after the caret has a plus sign. -/
def HasPlus (w : List Char) (t : Term) : Prop :=
  ∃ p n, '^' ∉ t.symbol ∧ w = t.symbol ++ ['^','+'] ++ p ∧ IsNatural p n ∧ t.power = n

/-- Without a plus sign only integers are exponents. -/
theorem isInteger_of_withExponent {fault : Fault} (h : withExponent fault s p = .ok t)
    (hplus : p.head? ≠ some '+') :
    t.symbol = s ∧ Dimension.fits t.power = true ∧ IsInteger p t.power := by
  obtain ⟨hs,hp⟩ := withExponent_eq_ok_iff.mp h
  obtain ⟨hfits,hp⟩ := readExponent?_eq_some_iff.mp hp
  refine ⟨hs,hfits,(Decimal.readInt?_eq_some_iff.mp hp).resolve_right ?_⟩
  rintro ⟨q,m,rfl,-⟩
  exact hplus rfl

/-! How each kind of word is cut. -/

theorem splitPower_caret (hs : '^' ∉ s) : splitPower known (s ++ '^'::p) =
    withExponent (.badExponent (s ++ '^'::p)) s p := by
  simp only [splitPower,splitCaret?_append s p hs]

theorem splitPower_of_endsIn_eq_false (hw : '^' ∉ w)
    (hend : Text.endsIn Text.isSuperscript w = false) :
    splitPower known w = if known w then .ok ⟨w,1⟩ else splitTrailingPower w := by
  simp only [splitPower,splitCaret?_eq_none hw,Text.splitEnd_of_endsIn_eq_false hend]

theorem splitTrailingPower_minus (hne : p ≠ []) (hp : ∀ c ∈ p, c.isDigit = true) :
    splitTrailingPower (s ++ '-'::p) = withExponent (.badExponent (s ++ '-'::p)) s ('-'::p) := by
  have hsplit : Text.splitEnd Char.isDigit (s ++ '-'::p) = (s ++ ['-'],p) :=
    Text.splitEnd_eq_iff.mpr ⟨by simp,Text.endsIn_concat s '-',hp⟩
  obtain ⟨c,p,rfl⟩ := List.exists_cons_of_ne_nil hne
  simp [splitTrailingPower,hsplit]

theorem splitTrailingPower_digits (hend : Text.endsIn Char.isDigit s = false)
    (hminus : s.getLast? ≠ some '-') (hne : p ≠ []) (hp : ∀ c ∈ p, c.isDigit = true) :
    splitTrailingPower (s ++ p) = withExponent (.badExponent (s ++ p)) s p := by
  have hsplit : Text.splitEnd Char.isDigit (s ++ p) = (s,p) :=
    Text.splitEnd_eq_iff.mpr ⟨rfl,hend,hp⟩
  obtain ⟨c,p,rfl⟩ := List.exists_cons_of_ne_nil hne
  simp only [splitTrailingPower,hsplit,if_neg hminus]

/-- Every word that ends in a digit is of one of these two kinds. -/
theorem exists_trailing (h : Text.endsIn Char.isDigit w = true) :
    ∃ s p, p ≠ [] ∧ (∀ c ∈ p, c.isDigit = true) ∧ (w = s ++ '-'::p ∨
      w = s ++ p ∧ Text.endsIn Char.isDigit s = false ∧ s.getLast? ≠ some '-') := by
  rcases hsplit : Text.splitEnd Char.isDigit w with ⟨s,p⟩
  obtain ⟨rfl,hend,hp⟩ := Text.splitEnd_eq_iff.mp hsplit
  have hne := Text.splitEnd_snd_ne_nil h
  rw [hsplit] at hne
  by_cases hminus : s.getLast? = some '-'
  · obtain ⟨s,rfl⟩ := List.getLast?_eq_some_iff.mp hminus
    exact ⟨s,p,hne,hp,.inl (by simp)⟩
  · exact ⟨s,p,hne,hp,.inr ⟨rfl,hend,hminus⟩⟩

theorem exists_raised (h : Text.endsIn Text.isSuperscript w = true) :
    ∃ s p, p ≠ [] ∧ (∀ c ∈ p, c ∈ Text.raisable) ∧
      Text.endsIn Text.isSuperscript s = false ∧ w = s ++ p.map Text.raise := by
  rcases hsplit : Text.splitEnd Text.isSuperscript w with ⟨s,run⟩
  obtain ⟨rfl,hend,hrun⟩ := Text.splitEnd_eq_iff.mp hsplit
  have hne := Text.splitEnd_snd_ne_nil h
  rw [hsplit] at hne
  obtain ⟨p,rfl,hp⟩ := Text.exists_map_raise hrun
  exact ⟨s,p,by simpa using hne,hp,hend,rfl⟩

theorem splitTrailingPower_of_isInteger (hp : IsInteger p n) (hmax : p.head? = some '-' ∨
    Text.endsIn Char.isDigit s = false ∧ s.getLast? ≠ some '-')
    (hfits : Dimension.fits n = true) : splitTrailingPower (s ++ p) = .ok ⟨s,n⟩ := by
  cases hp with
  | negative h =>
    rw [splitTrailingPower_minus h.ne_nil h.isDigit]
    exact withExponent_of_isInteger (.negative h) hfits _ s
  | natural h =>
    obtain ⟨hend,hminus⟩ : Text.endsIn Char.isDigit s = false ∧ s.getLast? ≠ some '-' := by
      refine hmax.resolve_left fun hhead => ?_
      exact absurd (h.isDigit '-' (List.mem_of_head? hhead)) (by decide)
    rw [splitTrailingPower_digits hend hminus h.ne_nil h.isDigit]
    exact withExponent_of_isInteger (.natural h) hfits _ s

theorem splitPower_of_hasForm (h : HasForm known w t) (hfits : Dimension.fits t.power = true) :
    splitPower known w = .ok t := by
  cases h with
  | caret hs hp =>
    rw [splitPower_caret hs]
    exact withExponent_of_isInteger hp hfits _ _
  | raised hs hend hp =>
    rw [splitPower_raised hs hend hp.ne_nil hp.mem_raisable]
    exact withExponent_of_isInteger hp hfits _ _
  | symbol hw hend hknown => rw [splitPower_of_endsIn_eq_false hw hend,if_pos hknown]
  | @trailing s p n hs hknown hp hmax =>
    have hcaret : '^' ∉ s ++ p := by
      rw [List.mem_append,not_or]
      exact ⟨hs,hp.not_mem_caret⟩
    have hend : Text.endsIn Text.isSuperscript (s ++ p) = false := by
      rw [Text.endsIn_append hp.ne_nil]
      exact Text.endsIn_eq_false_of_endsIn (fun _ => Text.isSuperscript_of_isDigit)
        hp.endsIn_isDigit
    rw [splitPower_of_endsIn_eq_false hcaret hend,if_neg (by simp [hknown]),
      splitTrailingPower_of_isInteger hp hmax hfits]
  | plain hw hend hknown hdigit =>
    rw [splitPower_of_endsIn_eq_false hw hend,if_neg (by simp [hknown]),
      splitTrailingPower_of_endsIn_eq_false hdigit]

theorem splitPower_of_hasPlus (h : HasPlus w t) (hfits : Dimension.fits t.power = true) :
    splitPower known w = .ok t := by
  obtain ⟨p,n,hs,rfl,hp,hn⟩ := h
  rw [List.append_assoc,List.cons_append,splitPower_caret hs]
  have hread := Decimal.readInt?_eq_some_iff.mpr (.inr ⟨p,n,rfl,hp,hn⟩)
  exact withExponent_eq_ok_iff.mpr ⟨rfl,readExponent?_eq_some_iff.mpr ⟨hfits,hread⟩⟩

theorem hasForm_of_splitTrailingPower (hcaret : '^' ∉ w)
    (hend : Text.endsIn Text.isSuperscript w = false) (hknown : known w = false)
    (h : splitTrailingPower w = .ok t) : HasForm known w t ∧ Dimension.fits t.power = true := by
  obtain ⟨symbol,n⟩ := t
  cases hdigit : Text.endsIn Char.isDigit w with
  | false =>
    rw [splitTrailingPower_of_endsIn_eq_false hdigit] at h
    cases h
    exact ⟨.plain hcaret hend hknown hdigit,Dimension.fits_one⟩
  | true =>
    obtain ⟨s,p,hne,hp,rfl | ⟨rfl,hs,hminus⟩⟩ := exists_trailing hdigit
    · rw [splitTrailingPower_minus hne hp] at h
      obtain ⟨rfl,hfits,hint⟩ := isInteger_of_withExponent h (by simp)
      exact ⟨.trailing (fun hmem => hcaret (List.mem_append_left _ hmem)) hknown hint (.inl rfl),
        hfits⟩
    · rw [splitTrailingPower_digits hs hminus hne hp] at h
      have hplus : p.head? ≠ some '+' := fun hhead =>
        absurd (hp '+' (List.mem_of_head? hhead)) (by decide)
      obtain ⟨rfl,hfits,hint⟩ := isInteger_of_withExponent h hplus
      exact ⟨.trailing (fun hmem => hcaret (List.mem_append_left _ hmem)) hknown hint
        (.inr ⟨hs,hminus⟩),hfits⟩

theorem form_of_splitPower (h : splitPower known w = .ok t) :
    (HasForm known w t ∨ HasPlus w t) ∧ Dimension.fits t.power = true := by
  obtain ⟨symbol,n⟩ := t
  by_cases hcaret : '^' ∈ w
  · obtain ⟨s,p,rfl,hs⟩ := List.eq_append_cons_of_mem hcaret
    rw [splitPower_caret hs] at h
    obtain ⟨rfl,hread⟩ := withExponent_eq_ok_iff.mp h
    obtain ⟨hfits,hread⟩ := readExponent?_eq_some_iff.mp hread
    rcases Decimal.readInt?_eq_some_iff.mp hread with hp | ⟨q,m,rfl,hq,hm⟩
    · exact ⟨.inl (.caret hs hp),hfits⟩
    · exact ⟨.inr ⟨q,m,hs,by simp,hq,hm⟩,hfits⟩
  · cases hend : Text.endsIn Text.isSuperscript w with
    | true =>
      obtain ⟨s,p,hne,hp,hs,rfl⟩ := exists_raised hend
      have hmem : '^' ∉ s := fun hmem => hcaret (List.mem_append_left _ hmem)
      have hplus : p.head? ≠ some '+' := fun hhead =>
        absurd (hp '+' (List.mem_of_head? hhead)) (by decide)
      rw [splitPower_raised hmem hs hne hp] at h
      obtain ⟨rfl,hfits,hint⟩ := isInteger_of_withExponent h hplus
      exact ⟨.inl (.raised hmem hs hint),hfits⟩
    | false =>
      rw [splitPower_of_endsIn_eq_false hcaret hend] at h
      split_ifs at h with hknown
      · cases h
        exact ⟨.inl (.symbol hcaret hend hknown),Dimension.fits_one⟩
      · exact (hasForm_of_splitTrailingPower hcaret hend (by simpa using hknown) h).imp_left .inl

/-- The documented forms and one more: a plus sign may follow the caret. -/
theorem readTerm_eq_ok_iff_hasForm (known : List Char → Bool) (w : List Char) (t : Term) :
    readTerm known w = .ok t ↔ (HasForm known w t ∨ HasPlus w t) ∧
      Dimension.fits t.power = true ∧ t.power ≠ 0 ∧ t.symbol ≠ [] := by
  rw [readTerm_eq_ok_iff]
  constructor
  · rintro ⟨hsplit,hsymbol,hpower⟩
    obtain ⟨hform,hfits⟩ := form_of_splitPower hsplit
    exact ⟨hform,hfits,hpower,hsymbol⟩
  · rintro ⟨hform | hplus,hfits,hpower,hsymbol⟩
    · exact ⟨splitPower_of_hasForm hform hfits,hsymbol,hpower⟩
    · exact ⟨splitPower_of_hasPlus hplus hfits,hsymbol,hpower⟩

theorem HasForm.exists_caret (h : HasForm known w t) (hcaret : '^' ∈ w) :
    ∃ p, '^' ∉ t.symbol ∧ w = t.symbol ++ '^'::p ∧ IsInteger p t.power := by
  cases h with
  | @caret s p n hs hp => exact ⟨p,hs,rfl,hp⟩
  | @raised s p n hs _ hp =>
    obtain ⟨c,hc,hraised⟩ := List.mem_map.mp ((List.mem_append.mp hcaret).resolve_left hs)
    exact absurd hraised (isWordChar_raise (hp.mem_raisable c hc)).2
  | @trailing s p n hs _ hp =>
    exact absurd ((List.mem_append.mp hcaret).resolve_left hs) hp.not_mem_caret
  | symbol hw | plain hw => exact absurd hcaret hw

/-- Where there is a plus sign after the caret, there is no other way to understand the word. -/
theorem HasPlus.not_hasForm (h : HasPlus w t) {u : Term} : ¬HasForm known w u := by
  intro hform
  obtain ⟨p,n,hs,rfl,-,-⟩ := h
  obtain ⟨q,hu,hw,hq⟩ := hform.exists_caret (by simp)
  have hcut := congrArg splitCaret? hw
  rw [List.append_assoc,List.cons_append,splitCaret?_append _ _ hs,
    splitCaret?_append _ _ hu] at hcut
  obtain ⟨-,rfl⟩ := Prod.mk.inj (Option.some.inj hcut)
  exact hq.head?_ne_plus rfl

/-- The exponent of the word is in none of the forms, and it is read. -/
theorem plus_after_caret_read :
    let w := "m^+2".toList
    readTerm Registry.builtin.knows w = .ok ⟨['m'],2⟩ ∧
      ¬HasForm Registry.builtin.knows w ⟨['m'],2⟩ := by
  intro w
  have hplus : HasPlus w ⟨['m'],2⟩ :=
    ⟨['2'],2,by decide,rfl,⟨by decide,List.forall_mem_singleton.mpr rfl,rfl⟩,rfl⟩
  exact ⟨rfl,hplus.not_hasForm⟩

/-! The three ways to write one power. -/

/-- The words in which the power of a symbol is written out. Digits at the end have to be seen as an
exponent, so the symbol must not go on with them, nor may the word be known as a whole. -/
inductive Spells (known : List Char → Bool) (s : List Char) (n : Int) : List Char → Prop
  | caret : Spells known s n (s ++ '^'::Decimal.writeInt n)
  | raised (hend : Text.endsIn Text.isSuperscript s = false) : Spells known s n (s ++ superscript n)
  | digits (hend : Text.endsIn Char.isDigit s = false) (hminus : 0 < n → s.getLast? ≠ some '-')
      (hknown : known (s ++ Decimal.writeInt n) = false) :
      Spells known s n (s ++ Decimal.writeInt n)

theorem Spells.hasForm (h : Spells known s n w) (hs : '^' ∉ s) (hzero : n ≠ 0) :
    HasForm known w ⟨s,n⟩ := by
  have hp := Decimal.isInteger_writeInt n
  cases h with
  | caret => exact .caret hs hp
  | raised hend => exact .raised hs hend hp
  | digits hend hminus hknown =>
    refine .trailing hs hknown hp ?_
    by_cases hneg : n < 0
    · left
      rw [Decimal.writeInt,if_pos hneg]
      rfl
    · exact .inr ⟨hend,hminus (by omega)⟩

theorem Spells.isWordChar (h : Spells known s n w) (hs : ∀ c ∈ s, isWordChar c = true) :
    ∀ c ∈ w, isWordChar c = true := by
  have hdigits : ∀ c ∈ Decimal.writeInt n, Signature.isWordChar c = true := by
    have hall : ∀ c ∈ Text.raisable, Signature.isWordChar c = true :=
      List.all_eq_true.mp (by decide)
    exact fun c hc => hall c ((Decimal.isInteger_writeInt n).mem_raisable c hc)
  cases h with
  | caret => exact List.forall_mem_append.mpr ⟨hs,List.forall_mem_cons.mpr ⟨by decide,hdigits⟩⟩
  | raised =>
    exact List.forall_mem_append.mpr ⟨hs,fun c hc => (isWordChar_of_mem_superscript hc).1⟩
  | digits => exact List.forall_mem_append.mpr ⟨hs,hdigits⟩

/-- However a power is spelled, it is read as that power, and as a signature of its own. -/
theorem read_of_spells (hne : s ≠ []) (hs : ∀ c ∈ s, isWordChar c = true ∧ c ≠ '^')
    (hfits : Dimension.fits n = true) (hzero : n ≠ 0) (h : Spells known s n w) :
    readTerm known w = .ok ⟨s,n⟩ ∧ read known w = .ok [⟨s,n⟩] := by
  have hform := h.hasForm (fun hmem => (hs '^' hmem).2 rfl) hzero
  have hterm : readTerm known w = .ok ⟨s,n⟩ :=
    readTerm_eq_ok_iff.mpr ⟨splitPower_of_hasForm hform hfits,hne,hzero⟩
  have hw : w ≠ [] := by
    cases h <;> simp [hne]
  refine ⟨hterm,?_⟩
  rw [read_word hw (h.isWordChar fun c hc => (hs c hc).1),hterm]
  rfl

/-- The symbol has digits of both kinds in it, and it ends in a minus sign. -/
theorem read_of_spells_least :
    let s := "a2²-".toList
    let known := fun w => w == s
    (∀ c ∈ s, isWordChar c = true ∧ c ≠ '^') ∧
      read known "a2²-^-2147483648".toList = .ok [⟨s,-2147483648⟩] ∧
      read known "a2²-⁻²¹⁴⁷⁴⁸³⁶⁴⁸".toList = .ok [⟨s,-2147483648⟩] ∧
      read known "a2²--2147483648".toList = .ok [⟨s,-2147483648⟩] := by
  intro s known
  have hs : ∀ c ∈ s, isWordChar c = true ∧ c ≠ '^' := by
    have hall : s.all (fun c => isWordChar c && c != '^') = true := by decide
    exact fun c hc => by simpa using List.all_eq_true.mp hall c hc
  have hall : ∀ w, Spells known s (-2147483648) w → read known w = .ok [⟨s,-2147483648⟩] :=
    fun w hw => (read_of_spells (by decide) hs (by decide) (by decide) hw).2
  exact ⟨hs,hall _ .caret,hall _ (.raised (by decide)),
    hall _ (.digits (by decide) (by decide) (by decide))⟩

end Signature
end Mensura
