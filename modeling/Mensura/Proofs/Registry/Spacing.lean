import Mensura.Dimension
import Mensura.Proofs.Measurement.Split
import Mensura.Proofs.Registry.Names
import Mensura.Proofs.Signature.Denotation

/-! The blank between a number and its unit. A signature that stands for something starts with the
first character of a registered symbol, and so never with a digit, a sign or a point. What it may
start with, and what continues a number, is an underscore, or an exponent. -/
namespace Mensura
open Measurement

namespace Signature
variable {known : List Char → Bool}

theorem splitCaret?_isPrefix {w s exponent : List Char} (h : splitCaret? w = some (s,exponent)) :
    s <+: w := by
  unfold splitCaret? at h
  split at h
  · cases h
  · cases h
    exact List.takeWhile_prefix _

theorem splitEnd_isPrefix (p : Char → Bool) (w : List Char) : (Text.splitEnd p w).1 <+: w :=
  ⟨_,Text.splitEnd_append p w⟩

theorem splitTrailingPower_isPrefix {w : List Char} {t : Term} (h : splitTrailingPower w = .ok t) :
    t.symbol <+: w := by
  have hend := splitEnd_isPrefix Char.isDigit w
  unfold splitTrailingPower at h
  split at h
  · cases h
    exact List.prefix_rfl
  · rename_i s digits _ hsplit
    rw [hsplit] at hend
    split at h
    · rw [withExponent_eq_ok h]
      exact (List.dropLast_prefix s).trans hend
    · rw [withExponent_eq_ok h]
      exact hend

/-- The symbol of a term is the start of the word. -/
theorem readTerm_isPrefix {w : List Char} {t : Term} (h : readTerm known w = .ok t) :
    t.symbol <+: w := by
  have hsplit := (readTerm_eq_ok_iff.mp h).1
  unfold splitPower at hsplit
  split at hsplit
  · rename_i s exponent hcaret
    rw [withExponent_eq_ok hsplit]
    exact splitCaret?_isPrefix hcaret
  · have hend := splitEnd_isPrefix Text.isSuperscript w
    split at hsplit
    · split at hsplit
      · cases hsplit
        exact List.prefix_rfl
      · exact splitTrailingPower_isPrefix hsplit
    · rename_i s run _ hrun
      rw [hrun] at hend
      rw [withExponent_eq_ok hsplit]
      exact hend

/-- The first symbol starts where the signature does. -/
theorem head?_of_read {c : Char} {s : List Char} {ts : List Term} (hc : Text.isBlank c = false)
    (h : read known (c::s) = .ok ts) : ∃ t us, ts = t::us ∧ t.symbol.head? = some c := by
  have hterms := (read_eq_ok_iff_readTerms.mp h).2
  cases hw : isWordChar c with
  | false =>
    rw [pieces_cons_of_not_wordChar hw,hc] at hterms
    simp [readTerms_operator_eq_ok_iff] at hterms
  | true =>
    obtain ⟨hne,hall,-⟩ := isMaximalWord_takeWhile hw s
    have hpieces := pieces_word_append hne hall (startsWord_dropWhile (c::s))
    rw [List.takeWhile_append_dropWhile] at hpieces
    rw [hpieces] at hterms
    obtain ⟨t,us,ht,-,rfl⟩ := readTerms_word_eq_ok_iff.mp hterms
    have hread : readTerm known ((c::s).takeWhile isWordChar) = .ok t := by
      rw [← ht,termAt]
      cases readTerm known ((c::s).takeWhile isWordChar) <;> rfl
    refine ⟨t,us,rfl,?_⟩
    have hstarts := readTerm_isPrefix hread
    obtain ⟨d,symbol,hsymbol⟩ := List.exists_cons_of_ne_nil (readTerm_eq_ok_iff.mp hread).2.1
    rw [hsymbol,List.takeWhile_cons_of_pos hw,List.cons_prefix_cons] at hstarts
    simp [hsymbol,hstarts.1]

end Signature

theorem Entry.isNumericStart_of_symbolFault? {s : List Char} (h : symbolFault? s = none) :
    ∀ c ∈ s.head?, isNumericStart c = false := by
  rintro c hc
  obtain ⟨s,rfl⟩ := List.head?_eq_some_iff.mp hc
  simp only [symbolFault?] at h
  split_ifs at h with hstart
  simpa using hstart

namespace Registry
variable {r : Registry}

/-- What stands for something does not start like a number. -/
theorem isNumericStart_of_resolve (hr : r.Reachable) {signature : List Char} {c : Resolution}
    (hstart : ∀ c ∈ signature.head?, Text.isBlank c = false)
    (hc : (r.resolve signature).result = .ok c) :
    ∀ c ∈ signature.head?, isNumericStart c = false := by
  intro first hfirst
  obtain ⟨s,rfl⟩ := List.head?_eq_some_iff.mp hfirst
  obtain ⟨ts,hread,hy⟩ := resolve_eq_ok_iff.mp hc
  obtain ⟨t,us,rfl,hhead⟩ := Signature.head?_of_read (hstart first rfl) hread
  obtain ⟨e,he⟩ := Option.isSome_iff_exists.mp hy.knows_head
  have hfit := hr.sound.fault?_eq_none e (mem_entries_of_lookup he)
  have hsymbol := ((Entry.fault?_eq_none_iff e).mp hfit).1
  rw [symbol_of_lookup he] at hsymbol
  exact Entry.isNumericStart_of_symbolFault? hsymbol first hhead

theorem ne_nil_of_resolve {signature : List Char} {c : Resolution}
    (hc : (r.resolve signature).result = .ok c) : signature ≠ [] := by
  obtain ⟨ts,hread,-⟩ := resolve_eq_ok_iff.mp hc
  exact ne_nil_of_read hread

theorem read_congr {α : Type} [Scalar α] {a b : List Char} (h : split a = split b)
    (d : Dimension) : (r.read d a : Outcome ReadError (Quantity d 1 α)) = r.read d b := by
  simp only [read,measure,h]

/-- The blank between a number and its unit does not matter, unless the number has no exponent and
the unit starts with one, or with an underscore. Such an exponent belongs to the number. -/
theorem spacing_ignored (hr : r.Reachable) {n s w : List Char} {c : Resolution}
    (hn : (spanDecimal n).1 = n) (hne : n ≠ [])
    (hstart : ∀ c ∈ s.head?, Text.isBlank c = false) (hc : (r.resolve s).result = .ok c)
    (hw : w ≠ []) (hblank : ∀ b ∈ w, Text.isBlank b = true) :
    (('e' ∈ n ∨ 'E' ∈ n) ∨ s.head? ≠ some '_' ∧ ¬StartsExponent s →
      ∀ (α : Type) [Scalar α] (d : Dimension),
        (r.read d (n ++ s) : Outcome ReadError (Quantity d 1 α)) = r.read d (n ++ w ++ s)) ∧
    ('e' ∉ n → 'E' ∉ n → StartsExponent s → ∃ exponent rest, StartsExponent exponent ∧
      s = exponent ++ rest ∧ spanDecimal (n ++ s) = (n ++ exponent,rest)) := by
  have hfirst := isNumericStart_of_resolve hr hstart hc
  have hmantissa := spanMantissa_snd_eq_nil_iff hn hne
  have hnonempty := ne_nil_of_resolve hc
  constructor
  · intro hcase α _ d
    obtain ⟨b,w,rfl⟩ := List.exists_cons_of_ne_nil hw
    obtain ⟨hb,hw⟩ := List.forall_mem_cons.mp hblank
    have htrim : Text.trim (w ++ s) = Text.trim s := Text.trim_blank_append hw s
    have hspaced : split (n ++ b::(w ++ s)) = readParts n (w ++ s) := by
      refine split_decimal_append_blank hn hne hb ?_
      rw [htrim]
      exact Text.trim_ne_nil hstart hnonempty
    have hadjacent : split (n ++ s) = readParts n s :=
      split_decimal_append hn hne hnonempty hstart hfirst (hcase.imp_left fun he hnil =>
        he.elim (hmantissa.mp hnil).1 (hmantissa.mp hnil).2)
    apply read_congr
    rw [List.append_assoc,List.cons_append,hadjacent,hspaced]
    exact readParts_congr n htrim.symm
  · intro he hE hexponent
    have hunderscore : ∀ c ∈ s.head?, isNumericStart c = false ∧ c ≠ '_' := by
      intro c hc
      refine ⟨hfirst c hc,?_⟩
      rintro rfl
      obtain ⟨letter,t,rfl,hletter⟩ := hexponent.exists_cons
      obtain rfl := Option.some.inj hc
      simp at hletter
    have hspan := spanDecimal_append_of_mantissa (hmantissa.mpr ⟨he,hE⟩) (by rwa [hn]) hunderscore
    exact ⟨_,_,hexponent.spanExponent_fst,(spanExponent_append s).symm,hspan⟩

theorem spacing_ignored_before_letter :
    let e : Entry := ⟨['e'],.length,.scale (Scalar.ofInt 2)⟩
    let r := builtin.add e
    r.Reachable ∧
      (r.read .length "5e".toList : Outcome ReadError (Quantity .length 1 Float32)) =
        r.read .length "5 \te".toList ∧
      ∃ exponent rest, StartsExponent exponent ∧ "e3".toList = exponent ++ rest ∧
        spanDecimal "5e3".toList = (['5'] ++ exponent,rest) := by
  intro e r
  have hr : r.Reachable :=
    Reachable.builtin.add (by decide +kernel) (by decide) (by decide +kernel)
  have he : (r.resolve ['e']).result = .ok ⟨.length,.scale (Scalar.ofInt 2)⟩ :=
    resolve_symbol hr (e := e) (by rw [lookup_add,if_pos rfl]) (by decide)
  obtain ⟨c,hcube⟩ : ∃ c, (r.resolve "e3".toList).result = .ok c :=
    Outcome.exists_eq_ok (by decide +kernel)
  have hstarts : StartsExponent "e3".toList :=
    ⟨'e',by simp,[],by simp,'3',[],by decide,rfl⟩
  have hno : ¬StartsExponent ['e'] := by
    simp [startsExponent_cons_iff,Decimal.spanSign]
  have hblank : ∀ b ∈ [' ','\t'], Text.isBlank b = true :=
    List.forall_mem_cons.mpr ⟨rfl,List.forall_mem_singleton.mpr rfl⟩
  have hvisible : ∀ c ∈ some 'e', Text.isBlank c = false := by
    rintro c ⟨⟩
    rfl
  have hletter := spacing_ignored hr (n := ['5']) (s := ['e']) (by decide) (by decide) hvisible he
    (by decide) hblank
  have hexponent := spacing_ignored hr (n := ['5']) (s := ['e','3']) (by decide) (by decide)
    hvisible hcube (by decide) hblank
  exact ⟨hr,hletter.1 (.inr ⟨by decide,hno⟩) _ _,
    hexponent.2 (by decide) (by decide) hstarts⟩

/-- Both symbols are accepted, and both texts without a blank are read as another number. -/
theorem spacing_not_ignored :
    let e : Entry := ⟨['e'],.length,.scale (Scalar.ofInt 2)⟩
    let u : Entry := ⟨['_','x'],.length,.scale (Scalar.ofInt 2)⟩
    let r := (builtin.add e).add u
    r.Reachable ∧ (spanDecimal ['2']).1 = ['2'] ∧
      (∃ c, (r.resolve "e3".toList).result = .ok c) ∧
      (∃ q : Quantity .volume 1 Float, (r.read .volume "2 e3".toList).result = .ok q) ∧
      (r.read .volume "2e3".toList : Outcome ReadError (Quantity .volume 1 Float)).result =
        .error (.dimensionMismatch .volume .dimensionless) ∧
      (∃ c, (r.resolve "_x".toList).result = .ok c) ∧
      (∃ q : Quantity .length 1 Float, (r.read .length "2 _x".toList).result = .ok q) ∧
      (r.read .length "2_x".toList : Outcome ReadError (Quantity .length 1 Float)).result =
        .error (.unknownUnit ['x']) := by
  intro e u r
  have he : (builtin.add e).Reachable :=
    Reachable.builtin.add (by decide +kernel) (by decide) (by decide +kernel)
  have hr : r.Reachable := he.add (by decide +kernel) (by decide) (by decide +kernel)
  exact ⟨hr,by decide,Outcome.exists_eq_ok (by decide +kernel),
    Outcome.exists_eq_ok (by decide +kernel),rfl,Outcome.exists_eq_ok (by decide +kernel),
    Outcome.exists_eq_ok (by decide +kernel),rfl⟩

end Registry
end Mensura
