import Mathlib.Data.List.Induction
import Mathlib.Data.List.TakeWhile
import Mensura.Text

/-! Characters and texts. The ten digits are neither blank nor superscripts nor signs, and they can
be raised. Of a text it is said how it ends, which of its characters are the first and the last that
can be seen, and what trimming leaves of it. -/
namespace Mensura.Text

/-- A test is passed by every digit if it is passed by the ten code points. -/
theorem forall_isDigit {P : Char → Prop} (h : ∀ n < 58, 48 ≤ n → P (Char.ofNat n)) {c : Char}
    (hc : c.isDigit = true) : P c := by
  simp only [Char.isDigit,Bool.and_eq_true,decide_eq_true_eq] at hc
  obtain ⟨hlow,hhigh⟩ := hc
  rw [← Char.ofNat_toNat c]
  exact h _ (Nat.lt_succ_of_le hhigh) hlow

theorem isBlank_of_isDigit {c : Char} (h : c.isDigit = true) : isBlank c = false :=
  forall_isDigit (P := (isBlank · = false)) (by decide) h

theorem mem_raisable_of_isDigit {c : Char} (h : c.isDigit = true) : c ∈ raisable :=
  forall_isDigit (P := (· ∈ raisable)) (by decide) h

theorem isSuperscript_of_isDigit {c : Char} (h : c.isDigit = true) : isSuperscript c = false :=
  forall_isDigit (P := (isSuperscript · = false)) (by decide) h

theorem ne_of_isDigit {c d : Char} (h : c.isDigit = true) (hd : d.isDigit = false) : c ≠ d := by
  rintro rfl
  simp [hd] at h

theorem ne_sign_of_isDigit {c : Char} (h : c.isDigit = true) : c ≠ '+' ∧ c ≠ '-' :=
  ⟨ne_of_isDigit h rfl,ne_of_isDigit h rfl⟩

/-! The last character of a text, and how much of the text is split off at the end. -/

def endsIn (p : Char → Bool) (s : List Char) : Bool := s.getLast?.any p

variable {p : Char → Bool}

@[simp] theorem endsIn_nil : endsIn p [] = false := rfl

@[simp] theorem endsIn_concat (s : List Char) (c : Char) : endsIn p (s ++ [c]) = p c := by
  simp [endsIn]

theorem endsIn_append {s t : List Char} (h : t ≠ []) : endsIn p (s ++ t) = endsIn p t := by
  simp [endsIn,List.getLast?_append,List.getLast?_eq_some_getLast h]

theorem endsIn_eq_false_of_forall {s : List Char} (h : ∀ c ∈ s, p c = false) :
    endsIn p s = false := by
  cases hs : s.getLast? with
  | none => simp [endsIn,hs]
  | some c => simpa [endsIn,hs] using h c (List.mem_of_getLast? hs)

theorem endsIn_eq_true_of_forall {s : List Char} (hne : s ≠ []) (h : ∀ c ∈ s, p c = true) :
    endsIn p s = true := by
  rw [endsIn,List.getLast?_eq_some_getLast hne]
  exact h _ (List.getLast_mem hne)

/-- The last character passes one test at most. -/
theorem endsIn_eq_false_of_endsIn {q : Char → Bool} (h : ∀ c, p c = true → q c = false)
    {s : List Char} (hs : endsIn p s = true) : endsIn q s = false := by
  unfold endsIn at hs ⊢
  cases hlast : s.getLast? with
  | none => rfl
  | some c => exact h c (by simpa [hlast] using hs)

theorem splitEnd_concat (s : List Char) (c : Char) :
    splitEnd p (s ++ [c]) =
      if p c then ((splitEnd p s).1,(splitEnd p s).2 ++ [c]) else (s ++ [c],[]) := by
  cases h : p c <;> simp [splitEnd,h]

theorem splitEnd_of_endsIn_eq_false {s : List Char} (h : endsIn p s = false) :
    splitEnd p s = (s,[]) := by
  induction s using List.reverseRecOn with
  | nil => rfl
  | append_singleton s c => simp [splitEnd_concat,show p c = false by simpa using h]

/-- Nothing more is split off than an end that all satisfies the test. -/
theorem splitEnd_append_of_forall {s t : List Char} (hs : endsIn p s = false)
    (ht : ∀ c ∈ t, p c = true) : splitEnd p (s ++ t) = (s,t) := by
  induction t using List.reverseRecOn with
  | nil => rw [List.append_nil,splitEnd_of_endsIn_eq_false hs]
  | append_singleton t c ih =>
    have hc : p c = true := ht c (by simp)
    have hrest := ih fun d hd => ht d (by simp [hd])
    rw [← List.append_assoc,splitEnd_concat,hrest]
    simp [hc]

theorem endsIn_splitEnd_fst (s : List Char) : endsIn p (splitEnd p s).1 = false := by
  induction s using List.reverseRecOn with
  | nil => rfl
  | append_singleton s c ih =>
    rw [splitEnd_concat]
    cases hc : p c with
    | false => simpa using hc
    | true => exact ih

theorem of_mem_splitEnd_snd {s : List Char} {c : Char} (h : c ∈ (splitEnd p s).2) :
    p c = true :=
  List.mem_takeWhile_imp (List.mem_reverse.mp h)

theorem splitEnd_eq_iff {s t u : List Char} : splitEnd p u = (s,t) ↔
    u = s ++ t ∧ endsIn p s = false ∧ ∀ c ∈ t, p c = true := by
  constructor
  · intro h
    have happ := splitEnd_append p u
    have hend := endsIn_splitEnd_fst (p := p) u
    have hall : ∀ c ∈ (splitEnd p u).2, p c = true := fun _ hc => of_mem_splitEnd_snd hc
    rw [h] at happ hend hall
    exact ⟨happ.symm,hend,hall⟩
  · rintro ⟨rfl,hend,hall⟩
    exact splitEnd_append_of_forall hend hall

theorem splitEnd_snd_ne_nil {s : List Char} (h : endsIn p s = true) : (splitEnd p s).2 ≠ [] := by
  induction s using List.reverseRecOn with
  | nil => simp at h
  | append_singleton s c => simp [splitEnd_concat,show p c = true by simpa using h]

/-- What is left is shorter. -/
theorem splitEnd_fst_ne {s : List Char} (h : endsIn p s = true) : (splitEnd p s).1 ≠ s := by
  intro hs
  have happ := splitEnd_append p s
  rw [hs] at happ
  exact splitEnd_snd_ne_nil h (by simpa using happ)

/-! The first and the last character of a text that can be seen. -/

def firstVisible? (s : List Char) : Option Char := s.find? (!isBlank ·)

def lastVisible? (s : List Char) : Option Char := s.reverse.find? (!isBlank ·)

@[simp] theorem lastVisible?_append (s t : List Char) :
    lastVisible? (s ++ t) = (lastVisible? t).or (lastVisible? s) := by
  simp [lastVisible?,List.find?_append]

theorem lastVisible?_singleton (c : Char) :
    lastVisible? [c] = if isBlank c then none else some c := by
  cases h : isBlank c <;> simp [lastVisible?,h]

theorem lastVisible?_eq_none_iff {s : List Char} :
    lastVisible? s = none ↔ ∀ c ∈ s, isBlank c = true := by
  simp [lastVisible?]

theorem mem_of_lastVisible? {s : List Char} {c : Char} (h : lastVisible? s = some c) : c ∈ s :=
  List.mem_reverse.mp (List.mem_of_find?_eq_some h)

/-- What comes before a visible character does not matter. -/
theorem lastVisible?_append_of_mem {t : List Char} {c : Char} (hmem : c ∈ t)
    (hc : isBlank c = false) (s : List Char) : lastVisible? (s ++ t) = lastVisible? t := by
  have hne : lastVisible? t ≠ none := by
    intro hnone
    simp [lastVisible?_eq_none_iff.mp hnone c hmem] at hc
  obtain ⟨d,hd⟩ := Option.ne_none_iff_exists'.mp hne
  rw [lastVisible?_append,hd,Option.some_or]

/-- It is visible, and only blanks come after it. -/
theorem lastVisible?_eq_some_iff {s : List Char} {c : Char} :
    lastVisible? s = some c ↔
      isBlank c = false ∧ ∃ a b, s = a ++ c::b ∧ ∀ d ∈ b, isBlank d = true := by
  rw [lastVisible?,List.find?_eq_some_iff_append]
  constructor
  · rintro ⟨hc,b,a,hs,hb⟩
    refine ⟨by simpa using hc,a.reverse,b.reverse,?_,fun d hd => ?_⟩
    · simpa using congrArg List.reverse hs
    · simpa using hb d (List.mem_reverse.mp hd)
  · rintro ⟨hc,a,b,rfl,hb⟩
    refine ⟨by simpa using hc,b.reverse,a.reverse,by simp,fun d hd => ?_⟩
    simpa using hb d (List.mem_reverse.mp hd)

/-- It is visible, and only blanks come before it. -/
theorem firstVisible?_eq_some_iff {s : List Char} {c : Char} :
    firstVisible? s = some c ↔
      isBlank c = false ∧ ∃ a b, s = a ++ c::b ∧ ∀ d ∈ a, isBlank d = true := by
  rw [firstVisible?,List.find?_eq_some_iff_append]
  simp

/-! Texts that neither start nor end with a blank, and what trimming leaves of a text. -/

structure IsTrimmed (s : List Char) : Prop where
  first : ∀ c ∈ s.head?, isBlank c = false
  last : endsIn isBlank s = false

theorem isTrimmed_of_forall {s : List Char} (h : ∀ c ∈ s, isBlank c = false) : IsTrimmed s :=
  ⟨fun c hc => h c (List.mem_of_head? hc),endsIn_eq_false_of_forall h⟩

/-- A visible start and a visible end make a trimmed text, whatever is between them. -/
theorem IsTrimmed.append {s t : List Char} (hs : IsTrimmed s) (ht : IsTrimmed t) (hne : s ≠ [])
    (hne' : t ≠ []) (u : List Char) : IsTrimmed (s ++ u ++ t) where
  first := by
    obtain ⟨c,s,rfl⟩ := List.exists_cons_of_ne_nil hne
    exact hs.first
  last := (endsIn_append hne').trans ht.last

theorem isTrimmed_trim (s : List Char) : IsTrimmed (trim s) where
  first := by
    intro c hc
    obtain ⟨t,ht⟩ := List.head?_eq_some_iff.mp hc
    have hend : trim s ++ (splitEnd isBlank (trimStart s)).2 = trimStart s :=
      splitEnd_append isBlank (trimStart s)
    have hhead : (trimStart s).head? = some c := by rw [← hend,ht,List.cons_append,List.head?_cons]
    have hnot := List.head?_dropWhile_not isBlank s
    simpa [show (s.dropWhile isBlank).head? = some c from hhead] using hnot
  last := by
    have hnot := List.head?_dropWhile_not isBlank (trimStart s).reverse
    cases h : ((trimStart s).reverse.dropWhile isBlank).head? with
    | none => simp [endsIn,trim,trimEnd,h]
    | some c => simpa [endsIn,trim,trimEnd,h] using hnot

/-- Only blanks are trimmed. -/
theorem exists_eq_trim (s : List Char) :
    ∃ a b, (∀ c ∈ a, isBlank c = true) ∧ (∀ c ∈ b, isBlank c = true) ∧ s = a ++ trim s ++ b := by
  refine ⟨s.takeWhile isBlank,(splitEnd isBlank (trimStart s)).2,fun c hc => ?_,fun c hc => ?_,?_⟩
  · exact List.mem_takeWhile_imp hc
  · exact List.mem_takeWhile_imp (List.mem_reverse.mp hc)
  · have hend : trim s ++ (splitEnd isBlank (trimStart s)).2 = trimStart s :=
      splitEnd_append isBlank (trimStart s)
    rw [List.append_assoc,hend]
    exact List.takeWhile_append_dropWhile.symm

/-- All blanks at the ends are trimmed. -/
theorem trim_append {a m b : List Char} (ha : ∀ c ∈ a, isBlank c = true) (hm : IsTrimmed m)
    (hb : ∀ c ∈ b, isBlank c = true) : trim (a ++ m ++ b) = m := by
  rw [trim,trimStart,List.append_assoc,List.dropWhile_append_of_pos ha]
  cases m with
  | nil =>
    have hdrop : b.dropWhile isBlank = [] := List.dropWhile_eq_nil_iff.mpr hb
    rw [List.nil_append,hdrop,trimEnd_nil]
  | cons c m =>
    have hc : isBlank c = false := hm.first c rfl
    rw [List.cons_append,List.dropWhile_cons_of_neg (by simp [hc]),← List.cons_append]
    exact congrArg Prod.fst (splitEnd_append_of_forall hm.last hb)

theorem trim_of_isTrimmed {s : List Char} (h : IsTrimmed s) : trim s = s := by
  simpa using trim_append (a := []) (b := []) (by simp) h (by simp)

@[simp] theorem trim_trim (s : List Char) : trim (trim s) = trim s :=
  trim_of_isTrimmed (isTrimmed_trim s)

theorem trim_blank_append {w : List Char} (hw : ∀ c ∈ w, isBlank c = true) (s : List Char) :
    trim (w ++ s) = trim s := by
  obtain ⟨a,b,ha,hb,hs⟩ := exists_eq_trim s
  have hwa : ∀ c ∈ w ++ a, isBlank c = true := List.forall_mem_append.mpr ⟨hw,ha⟩
  have htext : w ++ s = (w ++ a) ++ trim s ++ b := by
    conv_lhs => rw [hs]
    simp
  rw [htext,trim_append hwa (isTrimmed_trim s) hb]

theorem trim_eq_nil_iff {s : List Char} : trim s = [] ↔ ∀ c ∈ s, isBlank c = true := by
  constructor
  · intro h
    obtain ⟨a,b,ha,hb,hs⟩ := exists_eq_trim s
    rw [hs,h,List.append_nil]
    exact List.forall_mem_append.mpr ⟨ha,hb⟩
  · intro h
    simpa using trim_blank_append h []

/-- A text that starts visibly is only trimmed at its end. -/
theorem exists_eq_trim_append {s : List Char} (h : ∀ c ∈ s.head?, isBlank c = false) :
    ∃ b, (∀ c ∈ b, isBlank c = true) ∧ s = trim s ++ b := by
  obtain ⟨a,b,ha,hb,hs⟩ := exists_eq_trim s
  cases a with
  | nil => exact ⟨b,hb,hs⟩
  | cons c a =>
    have hc : isBlank c = false := by
      apply h
      rw [hs]
      rfl
    exact absurd (ha c List.mem_cons_self) (by simp [hc])

theorem trim_ne_nil {s : List Char} (h : ∀ c ∈ s.head?, isBlank c = false) (hs : s ≠ []) :
    trim s ≠ [] := by
  obtain ⟨c,s,rfl⟩ := List.exists_cons_of_ne_nil hs
  intro hnil
  have hc : isBlank c = true := trim_eq_nil_iff.mp hnil c List.mem_cons_self
  simp [h c rfl] at hc

theorem head?_trim {s : List Char} (h : ∀ c ∈ s.head?, isBlank c = false) :
    (trim s).head? = s.head? := by
  cases s with
  | nil => rfl
  | cons c s =>
    obtain ⟨d,t,ht⟩ := List.exists_cons_of_ne_nil (trim_ne_nil h (List.cons_ne_nil c s))
    obtain ⟨b,-,hs⟩ := exists_eq_trim_append h
    rw [ht,List.cons_append] at hs
    rw [ht,(List.cons.inj hs).1]
    rfl

end Mensura.Text
