import Mathlib.Data.List.TakeWhile
import Mensura.Proofs.Text
import Mensura.Signature

/-! The words of a signature are its maximal runs of characters that are neither blank nor an
operator. The pieces of a text are those of its parts, unless it is cut within a word. -/
namespace Mensura.Signature

/-- A run of word characters that goes on in neither direction. -/
def IsMaximalWord (w s : List Char) : Prop :=
  w ≠ [] ∧ (∀ c ∈ w, isWordChar c = true) ∧
    ∃ a b, s = a ++ w ++ b ∧ Text.endsIn isWordChar a = false ∧ startsWord b = false

theorem pieces_cons_of_not_wordChar {c : Char} (hc : isWordChar c = false) (s : List Char) :
    pieces (c::s) = (if Text.isBlank c then [] else [.operator c]) ++ pieces s := by
  rw [pieces]
  cases hb : Text.isBlank c with
  | true => simp
  | false =>
    have ho : isOperator c = true := by simpa [isWordChar,hb] using hc
    simp [ho]

theorem pieces_cons_of_wordChar {c : Char} (hc : isWordChar c = true) (s : List Char) :
    pieces (c::s) = if startsWord s then attach c (pieces s) else .word [c]::pieces s := by
  simp only [isWordChar,Bool.and_eq_true,Bool.not_eq_true'] at hc
  simp [pieces,hc.1,hc.2]

theorem pieces_ne_nil {s : List Char} (h : startsWord s = true) : pieces s ≠ [] := by
  cases s with
  | nil => simp [startsWord] at h
  | cons c s =>
    rw [pieces_cons_of_wordChar h]
    split
    · cases pieces s with
      | nil => simp [attach]
      | cons p ps => cases p <;> simp [attach]
    · simp

theorem attach_append {ps : List Piece} (h : ps ≠ []) (c : Char) (qs : List Piece) :
    attach c (ps ++ qs) = attach c ps ++ qs := by
  cases ps with
  | nil => exact absurd rfl h
  | cons p ps => cases p <;> rfl

theorem startsWord_append {a : List Char} (h : a ≠ []) (s : List Char) :
    startsWord (a ++ s) = startsWord a := by
  cases a with
  | nil => exact absurd rfl h
  | cons c a => rfl

theorem pieces_append {a s : List Char}
    (h : Text.endsIn isWordChar a = false ∨ startsWord s = false) :
    pieces (a ++ s) = pieces a ++ pieces s := by
  induction a with
  | nil => rfl
  | cons c a ih =>
    have hrest : Text.endsIn isWordChar a = false ∨ startsWord s = false := by
      cases a with
      | nil => exact .inl rfl
      | cons d a => exact h
    cases hc : isWordChar c with
    | false =>
      rw [List.cons_append,pieces_cons_of_not_wordChar hc,pieces_cons_of_not_wordChar hc,ih hrest,
        List.append_assoc]
    | true =>
      rw [List.cons_append,pieces_cons_of_wordChar hc,pieces_cons_of_wordChar hc,ih hrest]
      cases a with
      | nil =>
        have hs : startsWord s = false := by simpa [Text.endsIn,hc] using h
        rw [List.nil_append,hs]
        rfl
      | cons d a =>
        rw [startsWord_append (List.cons_ne_nil d a)]
        split
        · rename_i hd
          exact attach_append (pieces_ne_nil hd) c _
        · rfl

theorem pieces_of_word {w : List Char} (hw : w ≠ []) (h : ∀ c ∈ w, isWordChar c = true) :
    pieces w = [.word w] := by
  simpa using pieces_word_append hw h (s := []) rfl

/-- A maximal word of a part is one of the whole. -/
theorem IsMaximalWord.append_left {w s : List Char} (h : IsMaximalWord w s) {a : List Char}
    (ha : Text.endsIn isWordChar a = false ∨ startsWord s = false) : IsMaximalWord w (a ++ s) := by
  obtain ⟨hne,hall,a',b,rfl,ha',hb⟩ := h
  refine ⟨hne,hall,a ++ a',b,by simp,?_,hb⟩
  cases a' with
  | cons c a' => rw [Text.endsIn_append (List.cons_ne_nil c a'),ha']
  | nil =>
    rcases ha with ha | ha
    · simpa using ha
    · obtain ⟨c,w,rfl⟩ := List.exists_cons_of_ne_nil hne
      simp [startsWord,hall c] at ha

theorem startsWord_dropWhile (s : List Char) : startsWord (s.dropWhile isWordChar) = false := by
  induction s with
  | nil => rfl
  | cons c s ih =>
    rw [List.dropWhile_cons]
    split
    · exact ih
    · rename_i hc
      simpa [startsWord] using hc

theorem isMaximalWord_takeWhile {c : Char} (hc : isWordChar c = true) (s : List Char) :
    IsMaximalWord ((c::s).takeWhile isWordChar) (c::s) := by
  refine ⟨by simp [hc],fun x hx => List.all_eq_true.mp List.all_takeWhile x hx,[],
    (c::s).dropWhile isWordChar,?_,rfl,startsWord_dropWhile _⟩
  rw [List.nil_append,List.takeWhile_append_dropWhile]

/-- What holds of all texts that come after others: it holds at the end, and it is kept by passing
a character that is in no word, and by passing a word. -/
theorem word_induction {P : List Char → List Char → Prop} (nil : ∀ a, P a [])
    (gap : ∀ a c s, isWordChar c = false → P (a ++ [c]) s → P a (c::s))
    (word : ∀ a w s, w ≠ [] → (∀ c ∈ w, isWordChar c = true) → startsWord s = false →
      P (a ++ w) s → P a (w ++ s)) (a s : List Char) : P a s := by
  induction hn : s.length using Nat.strongRecOn generalizing a s with
  | _ n ih =>
    subst hn
    cases s with
    | nil => exact nil a
    | cons c s =>
      cases hc : isWordChar c with
      | false => exact gap a c s hc (ih s.length (by simp) _ _ rfl)
      | true =>
        have hfirst := isMaximalWord_takeWhile hc s
        have hcut := List.takeWhile_append_dropWhile (p := isWordChar) (l := c::s)
        have hlen : ((c::s).dropWhile isWordChar).length < (c::s).length := by
          rw [List.dropWhile_cons_of_pos hc,List.length_cons]
          exact Nat.lt_succ_of_le (List.length_dropWhile_le _ _)
        rw [← hcut]
        exact word a _ _ hfirst.1 hfirst.2.1 (startsWord_dropWhile _) (ih _ hlen _ _ rfl)

theorem isMaximalWord_of_mem_pieces {w s : List Char} (h : .word w ∈ pieces s) :
    IsMaximalWord w s := by
  -- what comes before does not matter
  induction ([] : List Char), s using word_induction with
  | nil => simp at h
  | gap _ c s hc ih =>
    rw [pieces_cons_of_not_wordChar hc] at h
    have hs : .word w ∈ pieces s := by
      rcases List.mem_append.mp h with h | h
      · split at h <;> simp at h
      · exact h
    exact (ih hs).append_left (a := [c]) (.inl ((Text.endsIn_concat [] c).trans hc))
  | word _ v s hne hall hs ih =>
    rw [pieces_word_append hne hall hs] at h
    rcases List.mem_cons.mp h with hw | h
    · cases hw
      exact ⟨hne,hall,[],s,rfl,rfl,hs⟩
    · exact (ih h).append_left (.inr hs)

theorem mem_pieces_iff {w s : List Char} : .word w ∈ pieces s ↔ IsMaximalWord w s := by
  constructor
  · exact isMaximalWord_of_mem_pieces
  · rintro ⟨hne,hall,a,b,rfl,ha,hb⟩
    rw [List.append_assoc,pieces_append (.inl ha),pieces_word_append hne hall hb]
    simp

instance (w s : List Char) : Decidable (IsMaximalWord w s) := decidable_of_iff _ mem_pieces_iff

/-! Where the words of a text stand. The text is gone through as a reader does it: a character that
is in no word is passed, and a word is passed as a whole. -/

/-- The word stands behind the first text in the second one, and goes on in neither direction. -/
structure IsWordAt (a w s : List Char) : Prop where
  ne_nil : w ≠ []
  all : ∀ c ∈ w, isWordChar c = true
  before : Text.endsIn isWordChar a = false
  rest : ∃ b, s = a ++ w ++ b ∧ startsWord b = false

theorem isMaximalWord_iff_isWordAt {w s : List Char} :
    IsMaximalWord w s ↔ ∃ a, IsWordAt a w s := by
  constructor
  · rintro ⟨hne,hall,a,b,hs,ha,hb⟩
    exact ⟨a,hne,hall,ha,b,hs,hb⟩
  · rintro ⟨a,hne,hall,ha,b,hs,hb⟩
    exact ⟨hne,hall,a,b,hs,ha,hb⟩

/-- All words of the text from left to right, each with what stands before it. -/
structure AreWords (s : List Char) (ws : List (List Char × List Char)) : Prop where
  mem_iff : ∀ a w, (a,w) ∈ ws ↔ IsWordAt a w s
  ordered : ws.Pairwise fun p q => p.1.length < q.1.length

/-- The words of a text that more text has been put in front of. -/
def shift (g : List Char) (ws : List (List Char × List Char)) : List (List Char × List Char) :=
  ws.map fun p => (g ++ p.1,p.2)

@[simp] theorem shift_nil (ws : List (List Char × List Char)) : shift [] ws = ws := by
  simp [shift]

theorem shift_shift (a b : List Char) (ws : List (List Char × List Char)) :
    shift a (shift b ws) = shift (a ++ b) ws := by
  simp [shift]

theorem mem_shift_iff {g a w : List Char} {ws : List (List Char × List Char)} :
    (a,w) ∈ shift g ws ↔ ∃ b, a = g ++ b ∧ (b,w) ∈ ws := by
  simp only [shift,List.mem_map,Prod.exists,Prod.mk.injEq]
  constructor
  · rintro ⟨b,v,hmem,rfl,rfl⟩
    exact ⟨b,rfl,hmem⟩
  · rintro ⟨b,rfl,hmem⟩
    exact ⟨b,w,hmem,rfl,rfl⟩

theorem pairwise_shift {ws : List (List Char × List Char)}
    (h : ws.Pairwise fun p q => p.1.length < q.1.length) (g : List Char) :
    (shift g ws).Pairwise fun p q => p.1.length < q.1.length := by
  apply List.Pairwise.map _ _ h
  intro p q hpq
  simpa using hpq

theorem takeWhile_append_word {w b : List Char} (h : ∀ c ∈ w, isWordChar c = true)
    (hb : startsWord b = false) : (w ++ b).takeWhile isWordChar = w := by
  have hrest : b.takeWhile isWordChar = [] := by
    cases b with
    | nil => rfl
    | cons c b => exact List.takeWhile_cons_of_neg (by simpa [startsWord] using hb)
  rw [List.takeWhile_append_of_pos h,hrest,List.append_nil]

theorem startsWord_word_append {w : List Char} (hw : w ≠ []) (h : ∀ c ∈ w, isWordChar c = true)
    (b : List Char) : startsWord (w ++ b) = true := by
  obtain ⟨c,w,rfl⟩ := List.exists_cons_of_ne_nil hw
  exact h c List.mem_cons_self

theorem startsWord_of_isWordAt_nil {w s : List Char} (h : IsWordAt [] w s) :
    startsWord s = true := by
  obtain ⟨b,rfl,-⟩ := h.rest
  rw [List.nil_append]
  exact startsWord_word_append h.ne_nil h.all b

/-- Whether a word starts behind a text is decided at the end of the text. -/
theorem endsIn_word_append {v : List Char} (hv : ∀ c ∈ v, isWordChar c = true) (hne : v ≠ [])
    (y : List Char) : Text.endsIn isWordChar (v ++ y) = false ↔
      y ≠ [] ∧ Text.endsIn isWordChar y = false := by
  cases y with
  | cons c y => simp [Text.endsIn_append (List.cons_ne_nil c y)]
  | nil =>
    have hlast : Text.endsIn isWordChar v = true := by
      simp only [Text.endsIn,List.getLast?_eq_some_getLast hne,Option.any_some]
      exact hv _ (List.getLast_mem hne)
    simp [hlast]

theorem isWordAt_cons_iff {c : Char} (hc : isWordChar c = false) {a w s : List Char} :
    IsWordAt a w (c::s) ↔ ∃ b, a = [c] ++ b ∧ IsWordAt b w s := by
  constructor
  · rintro ⟨hne,hall,ha,r,hs,hr⟩
    cases a with
    | nil =>
      have hstart := startsWord_word_append hne hall r
      rw [List.nil_append] at hs
      rw [← hs] at hstart
      simp [startsWord,hc] at hstart
    | cons d a =>
      obtain ⟨rfl,htail⟩ := List.cons.inj hs
      refine ⟨a,rfl,hne,hall,?_,r,htail,hr⟩
      cases a with
      | nil => rfl
      | cons d a => exact ha
  · rintro ⟨b,rfl,hne,hall,hb,r,rfl,hr⟩
    refine ⟨hne,hall,?_,r,by simp,hr⟩
    cases b with
    | nil => exact (Text.endsIn_concat [] c).trans hc
    | cons d b => rwa [Text.endsIn_append (List.cons_ne_nil d b)]

theorem isWordAt_word_append_iff {v : List Char} (hne : v ≠ [])
    (hall : ∀ c ∈ v, isWordChar c = true) {s : List Char} (hs : startsWord s = false)
    {a w : List Char} :
    IsWordAt a w (v ++ s) ↔ (a = [] ∧ w = v) ∨ ∃ b, a = v ++ b ∧ IsWordAt b w s := by
  constructor
  · rintro ⟨hwne,hword,ha,r,hr,hstop⟩
    rw [List.append_assoc] at hr
    rcases List.append_eq_append_iff.mp hr with ⟨b,rfl,hb⟩ | ⟨b,rfl,hb⟩
    · obtain ⟨-,hb'⟩ := (endsIn_word_append hall hne b).mp ha
      exact .inr ⟨b,rfl,hwne,hword,hb',r,by simpa using hb,hstop⟩
    · -- the word would start within the other one, so it starts with it
      cases a with
      | nil =>
        have hfirst := takeWhile_append_word hword hstop
        rw [hb,takeWhile_append_word (by simpa using hall) hs] at hfirst
        exact .inl ⟨rfl,by simpa using hfirst.symm⟩
      | cons c a =>
        have hmem := fun d hd => hall d (List.mem_append_left b hd)
        have hnot := (endsIn_word_append hmem (List.cons_ne_nil c a) []).mp (by simpa using ha)
        exact absurd rfl hnot.1
  · rintro (⟨rfl,rfl⟩ | ⟨b,rfl,hb⟩)
    · exact ⟨hne,hall,rfl,s,rfl,hs⟩
    · have hbne : b ≠ [] := by
        rintro rfl
        rw [startsWord_of_isWordAt_nil hb] at hs
        cases hs
      have hend := (endsIn_word_append hall hne b).mpr ⟨hbne,hb.before⟩
      obtain ⟨r,rfl,hstop⟩ := hb.rest
      exact ⟨hb.ne_nil,hb.all,hend,r,by simp,hstop⟩

theorem areWords_nil : AreWords [] [] where
  mem_iff a w := by
    constructor
    · intro h
      cases h
    · intro h
      obtain ⟨b,hb,-⟩ := h.rest
      have hempty : a = [] ∧ w = [] ∧ b = [] := by simpa using hb.symm
      exact absurd hempty.2.1 h.ne_nil
  ordered := .nil

theorem AreWords.cons {s : List Char} {ws : List (List Char × List Char)} (h : AreWords s ws)
    {c : Char} (hc : isWordChar c = false) : AreWords (c::s) (shift [c] ws) where
  mem_iff a w := by
    rw [mem_shift_iff,isWordAt_cons_iff hc]
    simp only [h.mem_iff]
  ordered := pairwise_shift h.ordered [c]

theorem AreWords.word_append {s : List Char} {ws : List (List Char × List Char)}
    (h : AreWords s ws) {v : List Char} (hne : v ≠ []) (hall : ∀ c ∈ v, isWordChar c = true)
    (hs : startsWord s = false) : AreWords (v ++ s) (([],v)::shift v ws) where
  mem_iff a w := by
    rw [List.mem_cons,mem_shift_iff,isWordAt_word_append_iff hne hall hs,Prod.mk.injEq]
    simp only [h.mem_iff]
  ordered := by
    refine List.pairwise_cons.mpr ⟨?_,pairwise_shift h.ordered v⟩
    rintro ⟨a,w⟩ hp
    obtain ⟨b,rfl,-⟩ := mem_shift_iff.mp hp
    have hpos := List.length_pos_iff.mpr hne
    simp only [List.length_nil,List.length_append]
    omega

end Mensura.Signature
