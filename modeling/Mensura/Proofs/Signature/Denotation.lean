import Mathlib.Data.List.Forall2
import Mensura.Proofs.Signature.Joining
import Mensura.Proofs.Signature.Words
import Mensura.Proofs.Text
import Mensura.Registry.Basic

/-! What a signature denotes, said of the text itself: one power of a unit for each of its words,
inverted if the character that can be seen before the word is a slash. The reader passes through
the text from left to right, and all that it has to know of what it has passed is the last visible
character. -/
namespace Mensura.Signature
open Text (firstVisible? lastVisible?)

variable {known : List Char → Bool}

/-- What a word follows that stands behind the text. -/
def placeAfter (a : List Char) : Place :=
  match lastVisible? a with
  | none => .start
  | some c => if isOperator c then .afterOperator c else .afterTerm

@[simp] theorem placeAfter_nil : placeAfter [] = .start := rfl

theorem placeAfter_eq_afterOperator_iff {a : List Char} {c : Char} :
    placeAfter a = .afterOperator c ↔ lastVisible? a = some c ∧ isOperator c = true := by
  rw [placeAfter]
  cases lastVisible? a with
  | none => simp
  | some d =>
    by_cases hd : isOperator d = true
    · simp only [hd,if_true,Place.afterOperator.injEq,Option.some.injEq]
      constructor
      · rintro rfl
        exact ⟨rfl,hd⟩
      · exact And.left
    · simp only [hd,Bool.false_eq_true,if_false,reduceCtorEq,Option.some.injEq,false_iff]
      rintro ⟨rfl,hc⟩
      exact hd hc

theorem placeAfter_eq_afterTerm_iff {a : List Char} :
    placeAfter a = .afterTerm ↔ ∃ c, lastVisible? a = some c ∧ isOperator c = false := by
  rw [placeAfter]
  cases lastVisible? a with
  | none => simp
  | some d => cases hd : isOperator d <;> simp [hd]

theorem placeAfter_concat_of_isBlank (a : List Char) {c : Char} (hc : Text.isBlank c = true) :
    placeAfter (a ++ [c]) = placeAfter a := by
  simp [placeAfter,Text.lastVisible?_singleton,hc]

theorem placeAfter_concat_of_isOperator (a : List Char) {c : Char} (hc : isOperator c = true) :
    placeAfter (a ++ [c]) = .afterOperator c := by
  simp [placeAfter,Text.lastVisible?_singleton,isBlank_of_isOperator hc,hc]

theorem placeAfter_word (a : List Char) {w : List Char} (hw : w ≠ [])
    (hall : ∀ c ∈ w, isWordChar c = true) : placeAfter (a ++ w) = .afterTerm := by
  have hc := hall _ (List.getLast_mem hw)
  simp only [isWordChar,Bool.and_eq_true,Bool.not_eq_true'] at hc
  have hlast : lastVisible? w = some (w.getLast hw) :=
    Text.lastVisible?_eq_some_iff.mpr
      ⟨hc.1,w.dropLast,[],(List.dropLast_concat_getLast hw).symm,by simp⟩
  simp [placeAfter,hlast,hc.2]

/-- Behind the first text, the operators of the second one stand after words, and the last of them
has a word after it. -/
structure OperatorsFit (a s : List Char) : Prop where
  follow : ∀ x c y, s = x ++ c::y → isOperator c = true → placeAfter (a ++ x) = .afterTerm
  closed : ∀ c, placeAfter (a ++ s) ≠ .afterOperator c

theorem operatorsFit_nil_iff {a : List Char} :
    OperatorsFit a [] ↔ ∀ c, placeAfter a ≠ .afterOperator c := by
  constructor
  · intro h
    simpa using h.closed
  · intro h
    exact ⟨fun x c y hs => by simp at hs,by simpa using h⟩

theorem operatorsFit_cons_iff {a s : List Char} {c : Char} :
    OperatorsFit a (c::s) ↔
      (isOperator c = true → placeAfter a = .afterTerm) ∧ OperatorsFit (a ++ [c]) s := by
  constructor
  · intro h
    refine ⟨fun hc => by simpa using h.follow [] c s rfl hc,?_,by simpa using h.closed⟩
    rintro x d y rfl hd
    simpa using h.follow (c::x) d y rfl hd
  · rintro ⟨hc,h⟩
    refine ⟨?_,by simpa using h.closed⟩
    intro x d y hs hd
    cases x with
    | nil =>
      obtain ⟨rfl,-⟩ := List.cons.inj hs
      simpa using hc hd
    | cons e x =>
      obtain ⟨rfl,htail⟩ := List.cons.inj hs
      simpa using h.follow x d y htail hd

theorem operatorsFit_word_append_iff {w : List Char} (hall : ∀ c ∈ w, isWordChar c = true)
    {a s : List Char} : OperatorsFit a (w ++ s) ↔ OperatorsFit (a ++ w) s := by
  induction w generalizing a with
  | nil => simp
  | cons c w ih =>
    obtain ⟨hc,hw⟩ := List.forall_mem_cons.mp hall
    have hno : isOperator c = false := by
      simp only [isWordChar,Bool.and_eq_true,Bool.not_eq_true'] at hc
      exact hc.2
    rw [List.cons_append,operatorsFit_cons_iff,ih hw]
    simp [hno]

theorem readTerms_nil_eq_ok_iff {place : Place} {ts : List Term} :
    readTerms known place [] = .ok ts ↔ (∀ c, place ≠ .afterOperator c) ∧ ts = [] := by
  cases place <;> simp [readTerms,@eq_comm _ _ ts]

theorem readTerms_operator_eq_ok_iff {place : Place} {c : Char} {ps : List Piece}
    {ts : List Term} :
    readTerms known place (.operator c::ps) = .ok ts ↔
      place = .afterTerm ∧ readTerms known (.afterOperator c) ps = .ok ts := by
  by_cases h : place = .afterTerm
  · rw [h,readTerms_operator]
    simp
  · rw [readTerms_operator_of_ne h]
    simp [h]

theorem readTerms_word_eq_ok_iff {place : Place} {w : List Char} {ps : List Piece}
    {ts : List Term} :
    readTerms known place (.word w::ps) = .ok ts ↔
      ∃ t us, termAt known place w = .ok t ∧ readTerms known .afterTerm ps = .ok us ∧
        ts = t::us := by
  rw [readTerms_word]
  cases termAt known place w with
  | error fault => simp [Except.bind]
  | ok t => cases readTerms known .afterTerm ps <;> simp [Except.bind,Except.map,@eq_comm _ _ ts]

/-- The word is read as the term, given what stands before it. -/
def IsReadAs (known : List Char → Bool) (p : List Char × List Char) (t : Term) : Prop :=
  termAt known (placeAfter p.1) p.2 = .ok t

/-- The invariant of the reader. What it reads behind a text depends on the last visible character
of the text: this says whether an operator may follow, and whether the next word is inverted. -/
theorem readTerms_pieces (known : List Char → Bool) (a s : List Char) :
    ∃ ws, AreWords s ws ∧ ∀ ts, readTerms known (placeAfter a) (pieces s) = .ok ts ↔
      OperatorsFit a s ∧ List.Forall₂ (IsReadAs known) (shift a ws) ts := by
  induction a, s using word_induction with
  | nil a =>
    refine ⟨[],areWords_nil,fun ts => ?_⟩
    have hnil : shift a [] = [] := rfl
    rw [pieces_nil,readTerms_nil_eq_ok_iff,operatorsFit_nil_iff,hnil,List.forall₂_nil_left_iff]
  | gap a c s hc ih =>
    obtain ⟨ws,hws,hread⟩ := ih
    refine ⟨shift [c] ws,hws.cons hc,fun ts => ?_⟩
    rw [shift_shift,operatorsFit_cons_iff,and_assoc,← hread,pieces_cons_of_not_wordChar hc]
    cases hb : Text.isBlank c with
    | true =>
      have hno : isOperator c = false := by
        by_contra h
        have hvisible := isBlank_of_isOperator (by simpa using h)
        simp [hb] at hvisible
      rw [placeAfter_concat_of_isBlank a hb]
      simp [hno]
    | false =>
      have ho : isOperator c = true := by simpa [isWordChar,hb] using hc
      rw [placeAfter_concat_of_isOperator a ho]
      simp only [Bool.false_eq_true,if_false,List.singleton_append,readTerms_operator_eq_ok_iff,ho,
        forall_const]
  | word a w s hne hall hs ih =>
    obtain ⟨ws,hws,hread⟩ := ih
    refine ⟨([],w)::shift w ws,hws.word_append hne hall hs,fun ts => ?_⟩
    have hshift : shift a (([],w)::shift w ws) = (a,w)::shift (a ++ w) ws := by
      rw [← shift_shift]
      simp [shift]
    rw [placeAfter_word a hne hall] at hread
    rw [pieces_word_append hne hall hs,readTerms_word_eq_ok_iff,operatorsFit_word_append_iff hall,
      hshift,List.forall₂_cons_left_iff]
    constructor
    · rintro ⟨t,us,ht,hus,hts⟩
      obtain ⟨hfit,hall⟩ := (hread us).mp hus
      exact ⟨hfit,t,us,ht,hall,hts⟩
    · rintro ⟨hfit,t,us,ht,hall,hts⟩
      exact ⟨t,us,ht,(hread us).mpr ⟨hfit,hall⟩,hts⟩

/-- A text is a signature exactly if a term is read: where there is none, nothing can be wrong. -/
theorem read_eq_ok_iff_readTerms {s : List Char} {ts : List Term} :
    read known s = .ok ts ↔ ts ≠ [] ∧ readTerms known .start (pieces s) = .ok ts := by
  cases h : pieces s with
  | nil =>
    have hnone : read known s = .error .noUnit := by rw [read,h]
    simp [hnone,readTerms,@eq_comm _ [] ts]
  | cons p ps =>
    have hread : read known s = readTerms known .start (p::ps) := by
      rw [read_eq_readTerms (by simp [h]),h]
    rw [hread,iff_and_self]
    intro hts hnil
    cases p with
    | operator c => simp [readTerms_operator_eq_ok_iff] at hts
    | word w =>
      obtain ⟨t,us,-,-,hcons⟩ := readTerms_word_eq_ok_iff.mp hts
      simp [hnil] at hcons

theorem exists_forall₂_iff {α β : Type} {R : α → β → Prop} {xs : List α} :
    (∃ ys, List.Forall₂ R xs ys) ↔ ∀ x ∈ xs, ∃ y, R x y := by
  induction xs with
  | nil => simp
  | cons x xs ih =>
    rw [List.forall_mem_cons,← ih]
    constructor
    · rintro ⟨ys,hys⟩
      obtain ⟨y,ys,hy,hys,-⟩ := List.forall₂_cons_left_iff.mp hys
      exact ⟨⟨y,hy⟩,ys,hys⟩
    · rintro ⟨⟨y,hy⟩,ys,hys⟩
      exact ⟨y::ys,.cons hy hys⟩

theorem fits_of_withExponent {fault : Fault} {symbol exponent : List Char} {t : Term}
    (h : withExponent fault symbol exponent = .ok t) : Dimension.fits t.power = true :=
  (readExponent?_eq_some_iff.mp (withExponent_eq_ok_iff.mp h).2).1

/-- The power of a word is a number of 32 bits. -/
theorem fits_of_readTerm {w : List Char} {t : Term} (h : readTerm known w = .ok t) :
    Dimension.fits t.power = true := by
  have hsplit := (readTerm_eq_ok_iff.mp h).1
  have hone : Dimension.fits 1 = true := by decide
  unfold splitPower at hsplit
  split at hsplit
  · exact fits_of_withExponent hsplit
  · split at hsplit
    · split at hsplit
      · cases hsplit
        exact hone
      · unfold splitTrailingPower at hsplit
        split at hsplit
        · cases hsplit
          exact hone
        · split at hsplit <;> exact fits_of_withExponent hsplit
    · exact fits_of_withExponent hsplit

/-- Of the powers of 32 bits, only the least has no inverse. -/
theorem invert_eq_ok_iff {t u : Term} (ht : Dimension.fits t.power = true) :
    t.invert = .ok u ↔ t.power ≠ -0x80000000 ∧ u = ⟨t.symbol,-t.power⟩ := by
  simp only [Dimension.fits,Bool.and_eq_true,decide_eq_true_eq] at ht
  simp only [Term.invert,Dimension.checked?]
  by_cases h : t.power = -0x80000000
  · have hfits : Dimension.fits 2147483648 = false := by decide
    simp [h,hfits]
  · have hfits : Dimension.fits (-t.power) = true := by
      simp only [Dimension.fits,Bool.and_eq_true,decide_eq_true_eq]
      omega
    simp [h,hfits,@eq_comm _ _ u]

/-- The term is the power that the word reads as, or its inverse right after a slash. -/
def Denotes (known : List Char → Bool) (p : List Char × List Char) (t : Term) : Prop :=
  ∃ u, readTerm known p.2 = .ok u ∧ t.symbol = u.symbol ∧
    t.power = if lastVisible? p.1 = some '/' then -u.power else u.power

theorem isReadAs_iff {p : List Char × List Char} {t : Term} :
    IsReadAs known p t ↔ Denotes known p t ∧
      ∀ u, readTerm known p.2 = .ok u → lastVisible? p.1 = some '/' → u.power ≠ -0x80000000 := by
  have hslash : placeAfter p.1 = .afterOperator '/' ↔ lastVisible? p.1 = some '/' := by
    rw [placeAfter_eq_afterOperator_iff]
    exact and_iff_left (by decide)
  obtain ⟨symbol,power⟩ := t
  rw [IsReadAs,termAt,Denotes]
  cases hw : readTerm known p.2 with
  | error fault => simp [Except.bind]
  | ok u =>
    simp only [Except.bind,hslash,Except.ok.injEq,exists_eq_left',forall_eq']
    by_cases h : lastVisible? p.1 = some '/'
    · simp only [h,if_true,invert_eq_ok_iff (fits_of_readTerm hw),Term.mk.injEq,forall_const]
      exact and_comm
    · obtain ⟨symbol',power'⟩ := u
      simp [h,@eq_comm _ symbol',@eq_comm _ power']

/-- Between two operators there is a word, and there is one before the first and after the last. -/
theorem operatorsFit_iff {s : List Char} :
    OperatorsFit [] s ↔
      (∀ c, firstVisible? s = some c → isOperator c = false) ∧
      (∀ c, lastVisible? s = some c → isOperator c = false) ∧
      ∀ a c b d e, s = a ++ c::(b ++ d::e) → isOperator c = true → isOperator d = true →
        ∃ x ∈ b, isWordChar x = true := by
  constructor
  · intro h
    refine ⟨fun c hc => ?_,fun c hc => ?_,?_⟩
    · obtain ⟨-,a,b,hs,ha⟩ := Text.firstVisible?_eq_some_iff.mp hc
      by_contra ho
      have hplace := h.follow a c b hs (by simpa using ho)
      simp [placeAfter,Text.lastVisible?_eq_none_iff.mpr ha] at hplace
    · by_contra ho
      exact h.closed c (placeAfter_eq_afterOperator_iff.mpr ⟨hc,by simpa using ho⟩)
    · intro a c b d e hs hc hd
      by_contra hnone
      push Not at hnone
      have hplace := h.follow (a ++ c::b) d e (by simp [hs]) hd
      obtain ⟨x,hx,hxo⟩ := placeAfter_eq_afterTerm_iff.mp hplace
      obtain ⟨hvisible,-⟩ := Text.lastVisible?_eq_some_iff.mp hx
      -- the last visible character before the operator is in between, or it is the other operator
      rw [List.nil_append,
        Text.lastVisible?_append_of_mem List.mem_cons_self (isBlank_of_isOperator hc)] at hx
      rcases List.mem_cons.mp (Text.mem_of_lastVisible? hx) with rfl | hmem
      · simp [hc] at hxo
      · have hword := hnone x hmem
        simp [isWordChar,hvisible,hxo] at hword
  · rintro ⟨hfirst,hlast,hapart⟩
    refine ⟨?_,fun c hc => ?_⟩
    · intro x c y hs hc
      rw [List.nil_append]
      have hblank := isBlank_of_isOperator hc
      cases hx : lastVisible? x with
      | none =>
        have hc' := hfirst c (Text.firstVisible?_eq_some_iff.mpr
          ⟨hblank,x,y,hs,Text.lastVisible?_eq_none_iff.mp hx⟩)
        simp [hc] at hc'
      | some d =>
        refine placeAfter_eq_afterTerm_iff.mpr ⟨d,hx,?_⟩
        by_contra hd
        obtain ⟨-,a,b,rfl,hb⟩ := Text.lastVisible?_eq_some_iff.mp hx
        obtain ⟨e,he,hword⟩ := hapart a d b c y (by simp [hs]) (by simpa using hd) hc
        simp [isWordChar,hb e he] at hword
    · obtain ⟨hc,ho⟩ := placeAfter_eq_afterOperator_iff.mp hc
      simp [hlast c hc] at ho

/-- The text has a word, its operators stand between words, and every word is a power of a unit
that has an inverse if it needs one. -/
structure IsSignature (known : List Char → Bool) (s : List Char) : Prop where
  word : ∃ w, IsMaximalWord w s
  first : ∀ c, firstVisible? s = some c → isOperator c = false
  last : ∀ c, lastVisible? s = some c → isOperator c = false
  apart : ∀ a c b d e, s = a ++ c::(b ++ d::e) → isOperator c = true → isOperator d = true →
    ∃ x ∈ b, isWordChar x = true
  readable : ∀ w, IsMaximalWord w s → ∃ t, readTerm known w = .ok t
  invertible : ∀ a w t, IsWordAt a w s → lastVisible? a = some '/' →
    readTerm known w = .ok t → t.power ≠ -0x80000000

theorem exists_words_read_iff (known : List Char → Bool) (s : List Char) :
    ∃ ws, AreWords s ws ∧ ∀ ts, read known s = .ok ts ↔
      ts ≠ [] ∧ OperatorsFit [] s ∧ List.Forall₂ (IsReadAs known) ws ts := by
  obtain ⟨ws,hws,hread⟩ := readTerms_pieces known [] s
  rw [placeAfter_nil,shift_nil] at hread
  refine ⟨ws,hws,fun ts => ?_⟩
  rw [read_eq_ok_iff_readTerms,hread]

theorem exists_read_eq_ok_iff {s : List Char} :
    (∃ ts, read known s = .ok ts) ↔ IsSignature known s := by
  obtain ⟨ws,hws,hread⟩ := exists_words_read_iff known s
  have hmem : ∀ p, p ∈ ws ↔ IsWordAt p.1 p.2 s := fun p => hws.mem_iff p.1 p.2
  constructor
  · rintro ⟨ts,hts⟩
    obtain ⟨hne,hfit,hall⟩ := (hread ts).mp hts
    obtain ⟨hfirst,hlast,hapart⟩ := operatorsFit_iff.mp hfit
    have hterm := exists_forall₂_iff.mp ⟨ts,hall⟩
    have hword : ws ≠ [] := by
      rintro rfl
      exact hne (List.forall₂_nil_left_iff.mp hall)
    obtain ⟨p,ws',rfl⟩ := List.exists_cons_of_ne_nil hword
    refine ⟨⟨p.2,?_⟩,hfirst,hlast,hapart,?_,?_⟩
    · exact isMaximalWord_iff_isWordAt.mpr ⟨p.1,(hmem p).mp List.mem_cons_self⟩
    · intro w hw
      obtain ⟨a,ha⟩ := isMaximalWord_iff_isWordAt.mp hw
      obtain ⟨t,ht⟩ := hterm (a,w) ((hmem (a,w)).mpr ha)
      obtain ⟨⟨u,hu,-⟩,-⟩ := isReadAs_iff.mp ht
      exact ⟨u,hu⟩
    · intro a w u ha hslash hu
      obtain ⟨t,ht⟩ := hterm (a,w) ((hmem (a,w)).mpr ha)
      exact (isReadAs_iff.mp ht).2 u hu hslash
  · intro h
    have hterm : ∀ p ∈ ws, ∃ t, IsReadAs known p t := by
      intro p hp
      have hat := (hmem p).mp hp
      obtain ⟨u,hu⟩ := h.readable p.2 (isMaximalWord_iff_isWordAt.mpr ⟨p.1,hat⟩)
      refine ⟨⟨u.symbol,if lastVisible? p.1 = some '/' then -u.power else u.power⟩,?_⟩
      refine isReadAs_iff.mpr ⟨⟨u,hu,rfl,rfl⟩,fun v hv hslash => ?_⟩
      exact h.invertible p.1 p.2 v hat hslash hv
    obtain ⟨ts,hts⟩ := exists_forall₂_iff.mpr hterm
    have hne : ts ≠ [] := by
      rintro rfl
      obtain rfl := List.forall₂_nil_right_iff.mp hts
      obtain ⟨w,hw⟩ := h.word
      obtain ⟨a,ha⟩ := isMaximalWord_iff_isWordAt.mp hw
      simpa using (hmem (a,w)).mpr ha
    have hfit := operatorsFit_iff.mpr ⟨h.first,h.last,h.apart⟩
    exact ⟨ts,(hread ts).mpr ⟨hne,hfit,hts⟩⟩

/-- A signature is read as one term for each of its words, in their order, and any other text is
malformed. So words are multiplied in whatever way they are put side by side, and a slash inverts
the term that comes next and no other. -/
theorem read_denotes (known : List Char → Bool) (s : List Char) :
    ((∃ ts, read known s = .ok ts) ↔ IsSignature known s) ∧
    (∀ ts, read known s = .ok ts → ∃ ws, AreWords s ws ∧ List.Forall₂ (Denotes known) ws ts) ∧
    (¬IsSignature known s → ∃ fault,
      (read known s).mapError (ReadError.malformedSignature s) =
        .error (.malformedSignature s fault) ∧
      ∀ r : Registry, r.knows = known →
        (r.resolve s).result = .error (.malformedSignature s fault)) ∧
    (∀ a b g h sign sign', Text.endsIn isWordChar a = true → startsWord b = true →
      sign ∈ [[],['*'],['·']] → sign' ∈ [[],['*'],['·']] → IsJoint sign g → IsJoint sign' h →
      read known (a ++ g ++ b) = read known (a ++ h ++ b)) ∧
    ∀ a b g, Text.endsIn isWordChar a = true → startsWord b = true → IsJoint ['/'] g →
      ∀ ts, read known (a ++ g ++ b) = .ok ts ↔ ∃ us t u vs, read known a = .ok us ∧
        read known b = .ok (t::vs) ∧ t.invert = .ok u ∧ ts = us ++ u::vs := by
  refine ⟨exists_read_eq_ok_iff,?_,?_,?_,fun a b g ha hb hg ts => read_over_eq_ok_iff ha hb hg⟩
  · intro ts hts
    obtain ⟨ws,hws,hread⟩ := exists_words_read_iff known s
    obtain ⟨-,-,hall⟩ := (hread ts).mp hts
    exact ⟨ws,hws,hall.imp fun p t ht => (isReadAs_iff.mp ht).1⟩
  · intro hno
    cases hread : read known s with
    | ok ts => exact absurd (exists_read_eq_ok_iff.mp ⟨ts,hread⟩) hno
    | error fault =>
      refine ⟨fault,rfl,?_⟩
      rintro r rfl
      have hterms : r.terms s = .error (.malformedSignature s fault) := by
        rw [Registry.terms,hread]
        rfl
      rw [Registry.resolve,Outcome.result_bind,Outcome.result_ofExcept,hterms]
      rfl
  · intro a b g h sign sign' ha hb hsign hsign' hg hh
    rw [read_times ha hb hg (by simpa using hsign),read_times ha hb hh (by simpa using hsign')]

example : (read (fun _ => false) "m / s*kg".toList).toOption =
    some [⟨['m'],1⟩,⟨['s'],-1⟩,⟨['k','g'],1⟩] := by decide

end Mensura.Signature
