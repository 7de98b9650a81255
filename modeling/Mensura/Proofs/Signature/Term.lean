import Mensura.Proofs.Decimal.Numeral
import Mensura.Proofs.Signature.Words
import Mensura.Proofs.Text

/-! What the known symbols have to do with the reading of a signature. They are only asked about
words that end in a digit: without one a word is read the same whether it is known or not. A known
word stands for itself, unless it ends in a superscript. -/
namespace Mensura
namespace Signature
variable {known known' : List Char → Bool}

theorem splitTrailingPower_of_endsIn_eq_false {w : List Char}
    (h : Text.endsIn Char.isDigit w = false) : splitTrailingPower w = .ok ⟨w,1⟩ := by
  rw [splitTrailingPower,Text.splitEnd_of_endsIn_eq_false h]

theorem splitPower_congr {w : List Char}
    (h : known w = known' w ∨ Text.endsIn Char.isDigit w = false) :
    splitPower known w = splitPower known' w := by
  have hword : (if known w then .ok ⟨w,1⟩ else splitTrailingPower w) =
      if known' w then .ok ⟨w,1⟩ else splitTrailingPower w := by
    rcases h with h | h
    · rw [h]
    · simp [splitTrailingPower_of_endsIn_eq_false h]
  simp only [splitPower,hword]

theorem readTerm_congr {w : List Char}
    (h : known w = known' w ∨ Text.endsIn Char.isDigit w = false) :
    readTerm known w = readTerm known' w := by
  rw [readTerm,splitPower_congr h,readTerm]

theorem readTerms_congr {ps : List Piece}
    (h : ∀ w, .word w ∈ ps → readTerm known w = readTerm known' w) (place : Place) :
    readTerms known place ps = readTerms known' place ps := by
  induction ps generalizing place with
  | nil => cases place <;> rfl
  | cons p ps ih =>
    have hps := ih fun w hw => h w (List.mem_cons_of_mem p hw)
    cases p with
    | operator c => cases place <;> simp only [readTerms,hps]
    | word w => cases place <;> simp only [readTerms,h w List.mem_cons_self,hps]

theorem read_congr {s : List Char}
    (h : ∀ w, IsMaximalWord w s → readTerm known w = readTerm known' w) :
    read known s = read known' s := by
  have hterms := fun place =>
    readTerms_congr (fun w hw => h w (mem_pieces_iff.mp hw)) place
  unfold read
  split
  · rfl
  · exact hterms .start

theorem splitCaret?_eq_none {w : List Char} (h : '^' ∉ w) : splitCaret? w = none := by
  have hdrop : w.dropWhile (· ≠ '^') = [] := by
    rw [List.dropWhile_eq_nil_iff]
    intro c hc
    have hne : c ≠ '^' := fun he => h (he ▸ hc)
    simpa using hne
  rw [splitCaret?,hdrop]

theorem readExponent?_eq_some_iff {s : List Char} {n : Int} : readExponent? s = some n ↔
    Dimension.fits n = true ∧ Decimal.readInt? s = some n := by
  simp only [readExponent?,Option.bind_eq_some_iff,Dimension.checked?_eq_some_iff]
  constructor
  · rintro ⟨m,hm,hfits,rfl⟩
    exact ⟨hfits,hm⟩
  · rintro ⟨hfits,hn⟩
    exact ⟨n,hn,hfits,rfl⟩

theorem withExponent_eq_ok_iff {fault : Fault} {symbol exponent : List Char} {t : Term} :
    withExponent fault symbol exponent = .ok t ↔
      t.symbol = symbol ∧ readExponent? exponent = some t.power := by
  obtain ⟨s,n⟩ := t
  unfold withExponent
  cases readExponent? exponent with
  | none => simp
  | some m => simp [@eq_comm _ symbol]

theorem withExponent_eq_ok {fault : Fault} {symbol exponent : List Char} {t : Term}
    (h : withExponent fault symbol exponent = .ok t) : t.symbol = symbol :=
  (withExponent_eq_ok_iff.mp h).1

theorem readTerm_eq_ok_iff {w : List Char} {t : Term} :
    readTerm known w = .ok t ↔ splitPower known w = .ok t ∧ t.symbol ≠ [] ∧ t.power ≠ 0 := by
  unfold readTerm
  cases splitPower known w with
  | error fault => simp [bind,Except.bind]
  | ok u =>
    simp only [bind,Except.bind,Except.ok.injEq]
    split_ifs with hs hp
    · constructor
      · intro h
        cases h
      · rintro ⟨rfl,hne,-⟩
        exact absurd hs hne
    · constructor
      · intro h
        cases h
      · rintro ⟨rfl,-,hne⟩
        exact absurd hp hne
    · constructor
      · intro h
        cases h
        exact ⟨rfl,hs,hp⟩
      · rintro ⟨rfl,-,-⟩
        rfl

/-- A known word is itself a term. -/
theorem readTerm_of_known {w : List Char} (hw : w ≠ []) (hknown : known w = true)
    (hcaret : '^' ∉ w) (hend : Text.endsIn Text.isSuperscript w = false) :
    readTerm known w = .ok ⟨w,1⟩ := by
  refine readTerm_eq_ok_iff.mpr ⟨?_,hw,Int.one_ne_zero⟩
  simp [splitPower,splitCaret?_eq_none hcaret,Text.splitEnd_of_endsIn_eq_false hend,hknown]

/-- Superscripts at the end are an exponent, even of a known word. -/
theorem symbol_ne_of_readTerm {w : List Char} {t : Term} (hcaret : '^' ∉ w)
    (hend : Text.endsIn Text.isSuperscript w = true) (h : readTerm known w = .ok t) :
    t.symbol ≠ w := by
  have hsplit := (readTerm_eq_ok_iff.mp h).1
  have hrun := Text.splitEnd_snd_ne_nil hend
  have hrest := Text.splitEnd_fst_ne hend
  simp only [splitPower,splitCaret?_eq_none hcaret] at hsplit
  rw [withExponent_eq_ok hsplit]
  exact hrest

/-- A word alone is read as a signature of one term. -/
theorem read_word {w : List Char} (hw : w ≠ []) (h : ∀ c ∈ w, isWordChar c = true) :
    read known w = (readTerm known w).map fun t => [t] := by
  rw [read,pieces_of_word hw h]
  cases ht : readTerm known w with
  | error fault => simp [readTerms,ht,bind,Except.bind,Except.map]
  | ok t => simp [readTerms,ht,bind,Except.bind,Except.map]

end Signature

/-! Powers in superscripts. The superscripts at the end of a word are read as the integer that they
write, whatever is known, and the rest of the word is the symbol. -/

namespace Text

theorem isSuperscript_raise {c : Char} (h : c ∈ raisable) : isSuperscript (raise c) = true := by
  rw [isSuperscript,lower?_raise h]
  rfl

theorem filterMap_lower?_map_raise {s : List Char} (h : ∀ c ∈ s, c ∈ raisable) :
    (s.map raise).filterMap lower? = s := by
  induction s with
  | nil => rfl
  | cons c s ih =>
    obtain ⟨hc,hs⟩ := List.forall_mem_cons.mp h
    rw [List.map_cons,List.filterMap_cons,lower?_raise hc,ih hs]

end Text

/-- Digits and the minus sign are all that an integer is written with. -/
theorem Decimal.IsInteger.mem_raisable {s : List Char} {n : Int} (h : IsInteger s n) :
    ∀ c ∈ s, c ∈ Text.raisable := by
  intro c hc
  rcases h.eq_minus_or_isDigit c hc with rfl | hdigit
  · decide
  · exact Text.mem_raisable_of_isDigit hdigit

namespace Signature

variable {known : List Char → Bool}

def superscript (n : Int) : List Char := (Decimal.writeInt n).map Text.raise

theorem isWordChar_raise {c : Char} (h : c ∈ Text.raisable) :
    isWordChar (Text.raise c) = true ∧ Text.raise c ≠ '^' := by
  have hall : Text.raisable.all
      (fun c => isWordChar (Text.raise c) && Text.raise c ≠ '^') = true := by decide
  simpa using List.all_eq_true.mp hall c h

theorem isWordChar_of_mem_superscript {n : Int} {c : Char} (h : c ∈ superscript n) :
    isWordChar c = true ∧ c ≠ '^' := by
  obtain ⟨d,hd,rfl⟩ := List.mem_map.mp h
  exact isWordChar_raise ((Decimal.isInteger_writeInt n).mem_raisable d hd)

theorem withExponent_of_isInteger {p : List Char} {n : Int} (hp : Decimal.IsInteger p n)
    (hfits : Dimension.fits n = true) (fault : Fault) (s : List Char) :
    withExponent fault s p = .ok ⟨s,n⟩ :=
  withExponent_eq_ok_iff.mpr
    ⟨rfl,readExponent?_eq_some_iff.mpr ⟨hfits,Decimal.readInt?_eq_some_iff.mpr (.inl hp)⟩⟩

/-- A word without a digit of either kind at its end is itself a term. -/
theorem readTerm_of_endsIn_eq_false {w : List Char} (hw : w ≠ []) (hcaret : '^' ∉ w)
    (hraised : Text.endsIn Text.isSuperscript w = false)
    (hdigit : Text.endsIn Char.isDigit w = false) : readTerm known w = .ok ⟨w,1⟩ := by
  have hknown : readTerm known w = readTerm (fun _ => true) w := readTerm_congr (.inr hdigit)
  rw [hknown]
  exact readTerm_of_known hw rfl hcaret hraised

/-- The superscripts at the end are lowered and read, and the rest is the symbol. -/
theorem splitPower_raised {s p : List Char} (hcaret : '^' ∉ s)
    (hend : Text.endsIn Text.isSuperscript s = false) (hne : p ≠ [])
    (hp : ∀ c ∈ p, c ∈ Text.raisable) : splitPower known (s ++ p.map Text.raise) =
      withExponent (.badSuperscript (p.map Text.raise)) s p := by
  have hno : '^' ∉ s ++ p.map Text.raise := by
    simp only [List.mem_append,List.mem_map,not_or,not_exists,not_and]
    exact ⟨hcaret,fun c hc => (isWordChar_raise (hp c hc)).2⟩
  have hsplit : Text.splitEnd Text.isSuperscript (s ++ p.map Text.raise) = (s,p.map Text.raise) :=
    Text.splitEnd_append_of_forall hend
      (List.forall_mem_map.mpr fun c hc => Text.isSuperscript_raise (hp c hc))
  have hlower := Text.filterMap_lower?_map_raise hp
  obtain ⟨c,p,rfl⟩ := List.exists_cons_of_ne_nil hne
  rw [List.map_cons] at hno hsplit hlower ⊢
  simp only [splitPower,splitCaret?_eq_none hno,hsplit,hlower]

theorem readTerm_superscript {s : List Char} (hne : s ≠ []) (hcaret : '^' ∉ s)
    (hend : Text.endsIn Text.isSuperscript s = false) {n : Int} (hfits : Dimension.fits n = true)
    (hzero : n ≠ 0) : readTerm known (s ++ superscript n) = .ok ⟨s,n⟩ := by
  have hwritten := Decimal.isInteger_writeInt n
  refine readTerm_eq_ok_iff.mpr ⟨?_,hne,hzero⟩
  rw [superscript,splitPower_raised hcaret hend hwritten.ne_nil hwritten.mem_raisable]
  exact withExponent_of_isInteger hwritten hfits _ s

end Signature
end Mensura
