import Mensura.Proofs.Signature.Joining

/-! What the faults of a signature tell about it: they name a word or an operator of the text, and
none of them is about units. -/
namespace Mensura.Signature

variable {known : List Char → Bool} {fault : Fault}

inductive IsWordFault (w : List Char) : Fault → Prop
  | badExponent : IsWordFault w (.badExponent w)
  | badSuperscript {run : List Char} (hrun : run <:+ w) : IsWordFault w (.badSuperscript run)
  | missingSymbol : IsWordFault w (.missingSymbol w)
  | zeroExponent : IsWordFault w (.zeroExponent w)

inductive IsFaultIn (known : List Char → Bool) (ps : List Piece) : Fault → Prop
  | unexpectedOperator {c : Char} (hc : .operator c ∈ ps) :
      IsFaultIn known ps (.unexpectedOperator c)
  | danglingOperator {c : Char} (hc : .operator c ∈ ps) : IsFaultIn known ps (.danglingOperator c)
  | word {w : List Char} {fault : Fault} (hw : .word w ∈ ps) (hfault : IsWordFault w fault) :
      IsFaultIn known ps fault
  /-- The power has no inverse of 32 bits. -/
  | exponentOverflow {w : List Char} {t : Term} (hw : .word w ∈ ps)
      (ht : readTerm known w = .ok t) (hfits : Dimension.fits (-t.power) = false) :
      IsFaultIn known ps .exponentOverflow

theorem withExponent_eq_error {fault' : Fault} {symbol exponent : List Char}
    (h : withExponent fault symbol exponent = .error fault') : fault = fault' := by
  unfold withExponent at h
  split at h
  · cases h
  · exact Except.error.inj h

theorem isWordFault_of_splitTrailingPower {w : List Char}
    (h : splitTrailingPower w = .error fault) : IsWordFault w fault := by
  unfold splitTrailingPower at h
  split at h
  · cases h
  · split at h <;> exact withExponent_eq_error h ▸ .badExponent

theorem isWordFault_of_splitPower {w : List Char} (h : splitPower known w = .error fault) :
    IsWordFault w fault := by
  unfold splitPower at h
  split at h
  · exact withExponent_eq_error h ▸ .badExponent
  · split at h
    · split at h
      · cases h
      · exact isWordFault_of_splitTrailingPower h
    · rename_i s run _ hsplit
      have hrun : run <:+ w := by
        rw [← Text.splitEnd_append Text.isSuperscript w,hsplit]
        exact List.suffix_append s run
      exact withExponent_eq_error h ▸ .badSuperscript hrun

theorem isWordFault_of_readTerm {w : List Char} (h : readTerm known w = .error fault) :
    IsWordFault w fault := by
  unfold readTerm at h
  cases ht : splitPower known w with
  | error fault' =>
    rw [ht] at h
    cases h
    exact isWordFault_of_splitPower ht
  | ok t =>
    simp only [ht,bind,Except.bind] at h
    split at h
    · cases h
      exact .missingSymbol
    · split at h
      · cases h
        exact .zeroExponent
      · cases h

theorem invert_eq_error {t : Term} (h : t.invert = .error fault) :
    fault = .exponentOverflow ∧ Dimension.fits (-t.power) = false := by
  unfold Term.invert Dimension.checked? at h
  cases hfits : Dimension.fits (-t.power) with
  | true => simp [hfits] at h
  | false => simpa [hfits,eq_comm] using h

theorem isFaultIn_of_termAt {place : Place} {w : List Char} {ps : List Piece}
    (hw : .word w ∈ ps) (h : termAt known place w = .error fault) :
    IsFaultIn known ps fault := by
  unfold termAt at h
  cases ht : readTerm known w with
  | error fault' =>
    rw [ht] at h
    cases h
    exact .word hw (isWordFault_of_readTerm ht)
  | ok t =>
    simp only [ht,Except.bind] at h
    split at h
    · obtain ⟨rfl,hfits⟩ := invert_eq_error h
      exact .exponentOverflow hw ht hfits
    · cases h

theorem IsFaultIn.cons {ps : List Piece} (h : IsFaultIn known ps fault) (p : Piece) :
    IsFaultIn known (p::ps) fault := by
  cases h with
  | unexpectedOperator hc => exact .unexpectedOperator (List.mem_cons_of_mem p hc)
  | danglingOperator hc => exact .danglingOperator (List.mem_cons_of_mem p hc)
  | word hw hfault => exact .word (List.mem_cons_of_mem p hw) hfault
  | exponentOverflow hw ht hfits => exact .exponentOverflow (List.mem_cons_of_mem p hw) ht hfits

/-- An operator that dangles may stand before the pieces. -/
theorem isFaultIn_of_readTerms {place : Place} {ps : List Piece}
    (h : readTerms known place ps = .error fault) :
    (∃ c, place = .afterOperator c ∧ fault = .danglingOperator c) ∨ IsFaultIn known ps fault := by
  induction ps generalizing place with
  | nil =>
    cases place with
    | afterOperator c =>
      cases h
      exact .inl ⟨c,rfl,rfl⟩
    | start | afterTerm => cases h
  | cons p ps ih =>
    right
    cases p with
    | operator c =>
      by_cases hplace : place = .afterTerm
      · rw [hplace,readTerms_operator] at h
        rcases ih h with ⟨d,hd,rfl⟩ | hps
        · cases hd
          exact .danglingOperator List.mem_cons_self
        · exact hps.cons _
      · rw [readTerms_operator_of_ne hplace] at h
        cases h
        exact .unexpectedOperator List.mem_cons_self
    | word w =>
      rw [readTerms_word] at h
      cases ht : termAt known place w with
      | error fault' =>
        rw [ht] at h
        cases h
        exact isFaultIn_of_termAt List.mem_cons_self ht
      | ok t =>
        cases hps : readTerms known .afterTerm ps with
        | error fault' =>
          rw [ht,hps] at h
          cases h
          rcases ih hps with ⟨c,hc,-⟩ | hfault
          · cases hc
          · exact hfault.cons _
        | ok ts =>
          rw [ht,hps] at h
          cases h

/-- Only a signature without any pieces has no unit. -/
theorem isFaultIn_of_read {s : List Char} (h : read known s = .error fault) :
    (pieces s = [] ∧ fault = .noUnit) ∨ IsFaultIn known (pieces s) fault := by
  by_cases hs : pieces s = []
  · rw [read,hs] at h
    cases h
    exact .inl ⟨hs,rfl⟩
  · rw [read_eq_readTerms hs] at h
    rcases isFaultIn_of_readTerms h with ⟨c,hc,-⟩ | hfault
    · cases hc
    · exact .inr hfault

theorem read_ne_factorOutOfRange {s : List Char} : read known s ≠ .error .factorOutOfRange := by
  intro h
  rcases isFaultIn_of_read h with ⟨-,hfault⟩ | hfault
  · cases hfault
  · cases hfault with
    | word _ hfault => cases hfault

end Mensura.Signature
