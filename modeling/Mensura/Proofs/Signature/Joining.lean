import Mensura.Proofs.Signature.Term

/-! Signatures side by side. Between two words there may be blanks and a sign; then the terms of
both sides are read as if they stood alone, except that a slash inverts the term that follows. -/
namespace Mensura.Signature

variable {known : List Char → Bool}

/-- The term of a word, given what the word follows. -/
def termAt (known : List Char → Bool) (place : Place) (w : List Char) : Except Fault Term :=
  (readTerm known w).bind fun t => if place = .afterOperator '/' then t.invert else .ok t

theorem readTerms_word (place : Place) (w : List Char) (ps : List Piece) :
    readTerms known place (.word w::ps) =
      (termAt known place w).bind fun t => (readTerms known .afterTerm ps).map (t::·) := by
  rw [termAt]
  cases hw : readTerm known w with
  | error fault => cases place <;> simp [readTerms,hw,bind,Except.bind]
  | ok t =>
    by_cases hp : place = .afterOperator '/'
    · subst hp
      simp only [readTerms,hw,if_pos]
      rfl
    · cases place <;> simp only [readTerms,hw,hp,if_false] <;> rfl

theorem readTerms_operator (c : Char) (ps : List Piece) :
    readTerms known .afterTerm (.operator c::ps) = readTerms known (.afterOperator c) ps := rfl

theorem readTerms_operator_of_ne {place : Place} (h : place ≠ .afterTerm) (c : Char)
    (ps : List Piece) :
    readTerms known place (.operator c::ps) = .error (.unexpectedOperator c) := by
  cases place with
  | start => rfl
  | afterTerm => exact absurd rfl h
  | afterOperator d => rfl

/-- Only after a slash does it matter for a word what it follows. -/
theorem readTerms_word_congr {p q : Place} (hp : p ≠ .afterOperator '/')
    (hq : q ≠ .afterOperator '/') (w : List Char) (ps : List Piece) :
    readTerms known p (.word w::ps) = readTerms known q (.word w::ps) := by
  rw [readTerms_word,readTerms_word,termAt,termAt]
  simp only [hp,hq,if_false]

/-- After a word, reading goes on as if nothing but a term had been there. -/
theorem readTerms_append (place : Place) (ps : List Piece) (w : List Char) (qs : List Piece) :
    readTerms known place (ps ++ .word w::qs) =
      (readTerms known place (ps ++ [.word w])).bind fun ts =>
        (readTerms known .afterTerm qs).map (ts ++ ·) := by
  induction ps generalizing place with
  | nil =>
    rw [List.nil_append,List.nil_append,readTerms_word,readTerms_word]
    cases termAt known place w with
    | error fault => rfl
    | ok t => rfl
  | cons p ps ih =>
    cases p with
    | operator c =>
      by_cases hplace : place = .afterTerm
      · rw [hplace,List.cons_append,List.cons_append,readTerms_operator,readTerms_operator,ih]
      · rw [List.cons_append,List.cons_append,readTerms_operator_of_ne hplace,
          readTerms_operator_of_ne hplace]
        rfl
    | word v =>
      rw [List.cons_append,List.cons_append,readTerms_word,readTerms_word,ih]
      cases termAt known place v with
      | error fault => rfl
      | ok t =>
        cases readTerms known .afterTerm (ps ++ [.word w]) with
        | error fault => rfl
        | ok ts => cases readTerms known .afterTerm qs <;> rfl

theorem exists_pieces_eq_concat {s : List Char} (h : Text.endsIn isWordChar s = true) :
    ∃ ps w, pieces s = ps ++ [.word w] := by
  induction s with
  | nil => simp at h
  | cons c s ih =>
    cases s with
    | nil =>
      have hc : isWordChar c = true := h
      exact ⟨[],[c],pieces_of_word (by simp) (by simpa using hc)⟩
    | cons d s =>
      obtain ⟨ps,w,hs⟩ := ih h
      cases hc : isWordChar c with
      | false =>
        rw [pieces_cons_of_not_wordChar hc,hs,← List.append_assoc]
        exact ⟨_,w,rfl⟩
      | true =>
        rw [pieces_cons_of_wordChar hc,hs]
        split
        · cases ps with
          | nil => exact ⟨[],c::w,rfl⟩
          | cons p ps =>
            rw [attach_append (by simp)]
            exact ⟨_,w,rfl⟩
        · exact ⟨.word [c]::ps,w,rfl⟩

theorem read_eq_readTerms {s : List Char} (h : pieces s ≠ []) :
    read known s = readTerms known .start (pieces s) := by
  unfold read
  split
  · exact absurd ‹_› h
  · rfl

theorem exists_pieces_eq_cons {s : List Char} (h : startsWord s = true) :
    ∃ w ps, pieces s = .word w::ps ∧
      ∀ known, read known s = readTerms known .start (.word w::ps) := by
  cases s with
  | nil => cases h
  | cons c s =>
    have hfirst := isMaximalWord_takeWhile (c := c) h s
    have hcut := List.takeWhile_append_dropWhile (p := isWordChar) (l := c::s)
    have hpieces := pieces_word_append hfirst.1 hfirst.2.1 (startsWord_dropWhile (c::s))
    rw [hcut] at hpieces
    refine ⟨_,_,hpieces,fun known => ?_⟩
    rw [read_eq_readTerms (by simp [hpieces]),hpieces]

/-- Blanks, with a sign among them or without one, that separate two words. -/
def IsJoint (sign g : List Char) : Prop :=
  g ≠ [] ∧ ∃ a b, g = a ++ sign ++ b ∧ (∀ c ∈ a, Text.isBlank c = true) ∧
    ∀ c ∈ b, Text.isBlank c = true

theorem isWordChar_of_isBlank {c : Char} (h : Text.isBlank c = true) : isWordChar c = false := by
  simp [isWordChar,h]

theorem isWordChar_of_isOperator {c : Char} (h : isOperator c = true) : isWordChar c = false := by
  simp [isWordChar,h]

theorem isBlank_of_isOperator {c : Char} (h : isOperator c = true) : Text.isBlank c = false := by
  simp only [isOperator,Bool.or_eq_true,decide_eq_true_eq] at h
  rcases h with (rfl | rfl) | rfl <;> decide

theorem pieces_of_isBlank {s : List Char} (h : ∀ c ∈ s, Text.isBlank c = true) :
    pieces s = [] := by
  induction s with
  | nil => rfl
  | cons c s ih =>
    obtain ⟨hc,hs⟩ := List.forall_mem_cons.mp h
    rw [pieces_cons_of_not_wordChar (isWordChar_of_isBlank hc),ih hs]
    simp [hc]

theorem pieces_of_isOperator {s : List Char} (h : ∀ c ∈ s, isOperator c = true) :
    pieces s = s.map .operator := by
  induction s with
  | nil => rfl
  | cons c s ih =>
    obtain ⟨hc,hs⟩ := List.forall_mem_cons.mp h
    rw [pieces_cons_of_not_wordChar (isWordChar_of_isOperator hc),ih hs]
    simp [isBlank_of_isOperator hc]

variable {sign g : List Char}

theorem IsJoint.isWordChar_eq_false (h : IsJoint sign g)
    (hsign : ∀ c ∈ sign, isOperator c = true) : ∀ c ∈ g, isWordChar c = false := by
  obtain ⟨-,a,b,rfl,ha,hb⟩ := h
  simp only [List.mem_append]
  rintro c ((hc | hc) | hc)
  · exact isWordChar_of_isBlank (ha c hc)
  · exact isWordChar_of_isOperator (hsign c hc)
  · exact isWordChar_of_isBlank (hb c hc)

theorem IsJoint.pieces_eq (h : IsJoint sign g) (hsign : ∀ c ∈ sign, isOperator c = true) :
    pieces g = sign.map .operator := by
  obtain ⟨-,a,b,rfl,ha,hb⟩ := h
  have hab : Text.endsIn isWordChar a = false :=
    Text.endsIn_eq_false_of_forall fun c hc => isWordChar_of_isBlank (ha c hc)
  have hstart : startsWord b = false := by
    cases b with
    | nil => rfl
    | cons c b => exact isWordChar_of_isBlank (hb c List.mem_cons_self)
  rw [pieces_append (.inr hstart),pieces_append (.inl hab),pieces_of_isBlank ha,
    pieces_of_isBlank hb,pieces_of_isOperator hsign,List.nil_append,List.append_nil]

variable {a b : List Char}

theorem pieces_joint (h : IsJoint sign g) (hsign : ∀ c ∈ sign, isOperator c = true) :
    pieces (a ++ g ++ b) = pieces a ++ sign.map .operator ++ pieces b := by
  have hg := h.isWordChar_eq_false hsign
  obtain ⟨c,g',hcons⟩ := List.exists_cons_of_ne_nil h.1
  have hstart : startsWord g = false := by
    rw [hcons]
    exact hg c (hcons ▸ List.mem_cons_self)
  rw [pieces_append (.inl _),pieces_append (.inr hstart),h.pieces_eq hsign]
  rw [Text.endsIn_append h.1]
  exact Text.endsIn_eq_false_of_forall hg

/-- What is read behind the joint depends on the sign alone. -/
theorem read_joint (ha : Text.endsIn isWordChar a = true) (h : IsJoint sign g)
    (hsign : ∀ c ∈ sign, isOperator c = true) :
    read known (a ++ g ++ b) = (read known a).bind fun ts =>
      (readTerms known .afterTerm (sign.map .operator ++ pieces b)).map (ts ++ ·) := by
  obtain ⟨ps,w,hps⟩ := exists_pieces_eq_concat ha
  have hleft : pieces a ≠ [] := by simp [hps]
  have hall : pieces (a ++ g ++ b) = ps ++ .word w::(sign.map .operator ++ pieces b) := by
    rw [pieces_joint h hsign,hps]
    simp
  have hne : pieces (a ++ g ++ b) ≠ [] := by
    rw [hall]
    simp
  rw [read_eq_readTerms hne,read_eq_readTerms hleft,hall,hps,readTerms_append]

/-- Whether two words are multiplied by a sign or without one makes no difference. -/
theorem read_times (ha : Text.endsIn isWordChar a = true) (hb : startsWord b = true)
    (h : IsJoint sign g) (hsign : sign = [] ∨ sign = ['*'] ∨ sign = ['·']) :
    read known (a ++ g ++ b) =
      (read known a).bind fun ts => (read known b).map (ts ++ ·) := by
  obtain ⟨w,ps,hps,hright⟩ := exists_pieces_eq_cons hb
  have hoperator : ∀ c ∈ sign, isOperator c = true := by
    rcases hsign with rfl | rfl | rfl <;> simp [isOperator]
  have hplace : readTerms known .afterTerm (sign.map .operator ++ .word w::ps) =
      readTerms known .start (.word w::ps) := by
    rcases hsign with rfl | rfl | rfl
    · exact readTerms_word_congr (by simp) (by simp) w ps
    · exact readTerms_word_congr (p := .afterOperator '*') (by decide) (by simp) w ps
    · exact readTerms_word_congr (p := .afterOperator '·') (by decide) (by simp) w ps
  rw [read_joint ha h hoperator,hps,hplace,hright]

/-- A slash inverts the first term on its right, and nothing else. -/
theorem read_over_eq_ok_iff (ha : Text.endsIn isWordChar a = true) (hb : startsWord b = true)
    (h : IsJoint ['/'] g) {ts : List Term} :
    read known (a ++ g ++ b) = .ok ts ↔ ∃ us t u vs, read known a = .ok us ∧
      read known b = .ok (t::vs) ∧ t.invert = .ok u ∧ ts = us ++ u::vs := by
  obtain ⟨w,ps,hps,hright⟩ := exists_pieces_eq_cons hb
  have hstart : termAt known .start w = readTerm known w := by
    rw [termAt]
    cases readTerm known w <;> rfl
  have hslash : termAt known (.afterOperator '/') w = (readTerm known w).bind Term.invert := by
    rw [termAt]
    simp
  rw [read_joint ha h (by simp [isOperator]),hps,hright,List.map_singleton,List.singleton_append,
    readTerms_operator,readTerms_word,readTerms_word,hstart,hslash]
  cases read known a with
  | error fault => simp [Except.bind]
  | ok us =>
    cases readTerm known w with
    | error fault => simp [Except.bind,Except.map]
    | ok t =>
      cases hu : t.invert with
      | error fault => cases readTerms known .afterTerm ps <;> simp [Except.bind,Except.map,hu]
      | ok u =>
        cases readTerms known .afterTerm ps with
        | error fault => simp [Except.bind,Except.map,hu]
        | ok vs => simp [Except.bind,Except.map,hu,@eq_comm _ ts]

end Mensura.Signature
