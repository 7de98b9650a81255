import Mathlib.Data.List.Induction
import Mensura.Dimension
import Mensura.Proofs.Data.Components
import Mensura.Proofs.Numeric.Width

/-! Reading a quantity with its dimension. The pairs are visited in turn, and what is known of those
visited is the data found under each of the two names. So the first pair that is at fault decides;
if none is, what is missing decides, and a dimension that does not match only then. -/
namespace Mensura.Data

section Reading
variable {β : Type}

def tagFields : List String := ["value","dimension"]

/-- The data under a name, in the order in which it is visited. -/
def dataOf (k : String) (pairs : List (String × Data)) : List Data :=
  (pairs.filter fun p => p.1 = k).map Prod.snd

@[simp] theorem dataOf_nil (k : String) : dataOf k [] = [] := rfl

@[simp] theorem dataOf_append (k : String) (a b : List (String × Data)) :
    dataOf k (a ++ b) = dataOf k a ++ dataOf k b := by
  simp [dataOf]

theorem dataOf_cons (k : String) (p : String × Data) (pairs : List (String × Data)) :
    dataOf k (p::pairs) = (if p.1 = k then [p.2] else []) ++ dataOf k pairs := by
  by_cases h : p.1 = k <;> simp [dataOf,h]

theorem mem_dataOf_iff {k : String} {x : Data} {pairs : List (String × Data)} :
    x ∈ dataOf k pairs ↔ (k,x) ∈ pairs := by
  simp [dataOf]

theorem dataOf_eq_nil_iff {k : String} {pairs : List (String × Data)} :
    dataOf k pairs = [] ↔ k ∉ pairs.map Prod.fst := by
  rw [List.eq_nil_iff_forall_not_mem]
  simp [mem_dataOf_iff]

theorem dataOf_perm {a b : List (String × Data)} (h : a.Perm b) (k : String) :
    (dataOf k a).Perm (dataOf k b) :=
  (h.filter _).map _

/-- Nothing has been found under a name, or a single thing, which is readable. -/
inductive Found (read : Data → Except Fault β) : List Data → Option β → Prop
  | missing : Found read [] none
  | once {x : Data} {v : β} (h : read x = .ok v) : Found read [x] (some v)

theorem found_cons_iff {read : Data → Except Fault β} {x : Data} {xs : List Data} {o : Option β} :
    Found read (x::xs) o ↔ xs = [] ∧ ∃ v, read x = .ok v ∧ o = some v := by
  constructor
  · intro h
    cases h with
    | once h => exact ⟨rfl,_,h,rfl⟩
  · rintro ⟨rfl,v,h,rfl⟩
    exact .once h

theorem Found.eq_nil_of_append {read : Data → Except Fault β} {a b : List Data} {o : Option β}
    (h : Found read (a ++ b) o) (ha : a ≠ []) : b = [] := by
  obtain ⟨x,a,rfl⟩ := List.exists_cons_of_ne_nil ha
  exact (List.append_eq_nil_iff.mp (found_cons_iff.mp h).1).2

theorem Found.eq_none_iff {read : Data → Except Fault β} {xs : List Data} {o : Option β}
    (h : Found read xs o) : o = none ↔ xs = [] := by
  cases h <;> simp

theorem Found.eq_some_iff {read : Data → Except Fault β} {xs : List Data} {o : Option β}
    (h : Found read xs o) {v : β} : o = some v ↔ ∃ x, xs = [x] ∧ read x = .ok v := by
  cases h with
  | missing => simp
  | once h => simp [h]

theorem Found.eq_some_iff_mem {read : Data → Except Fault β} {xs : List Data} {o : Option β}
    (h : Found read xs o) {v : β} : o = some v ↔ ∃ x ∈ xs, read x = .ok v := by
  cases h with
  | missing => simp
  | once h => simp [h]

theorem Found.unique {read : Data → Except Fault β} {xs : List Data} {o o' : Option β}
    (h : Found read xs o) (h' : Found read xs o') : o = o' :=
  Option.ext fun _ => h.eq_some_iff.trans h'.eq_some_iff.symm

theorem Found.isSome_iff {read : Data → Except Fault β} {k : String}
    {seen : List (String × Data)} {o : Option β} (h : Found read (dataOf k seen) o) :
    o.isSome = true ↔ k ∈ seen.map Prod.fst := by
  rw [← not_iff_not,← dataOf_eq_nil_iff,← h.eq_none_iff,Option.not_isSome_iff_eq_none]

section Visit
variable (read : Data → Except Fault β)

/-- All that the pairs visited so far have left behind. -/
structure Holds (seen : List (String × Data)) (value : Option β)
    (tag : Option Dimension) : Prop where
  keys : ∀ p ∈ seen, p.1 ∈ tagFields
  value : Found read (dataOf "value" seen) value
  tag : Found readDimension (dataOf "dimension" seen) tag

/-- What is wrong with a pair that is visited after others. A name that comes again is at fault
whatever is under it. -/
inductive Problem (seen : List (String × Data)) : String × Data → Fault → Prop
  | unknown {k : String} {x : Data} (hk : k ∉ tagFields) :
    Problem seen (k,x) (.unknownField k tagFields)
  | repeated {k : String} {x : Data} (hk : k ∈ tagFields) (hs : k ∈ seen.map Prod.fst) :
    Problem seen (k,x) (.duplicateField k)
  | value {x : Data} {f : Fault} (hs : "value" ∉ seen.map Prod.fst)
    (hx : read x = .error f) : Problem seen ("value",x) f
  | dimension {x : Data} {f : Fault} (hs : "dimension" ∉ seen.map Prod.fst)
    (hx : readDimension x = .error f) : Problem seen ("dimension",x) f

def IsFaultless (pairs : List (String × Data)) : Prop :=
  ∀ before p after f, pairs = before ++ p::after → ¬Problem read before p f

/-- The pairs before the one at fault have none. -/
def FirstProblem (pairs : List (String × Data)) (f : Fault) : Prop :=
  ∃ before p after, pairs = before ++ p::after ∧ IsFaultless read before ∧ Problem read before p f

/-- What is wrong with pairs none of which is at fault. That the dimension does not match counts
only if the value is there. -/
inductive EndProblem (d : Dimension) (pairs : List (String × Data)) : Fault → Prop
  | missing (hv : "value" ∉ pairs.map Prod.fst) : EndProblem d pairs (.missingField "value")
  | mismatch (hv : "value" ∈ pairs.map Prod.fst) {x : Data} {t : Dimension}
    (hx : ("dimension",x) ∈ pairs) (ht : readDimension x = .ok t) (hne : t ≠ d) :
    EndProblem d pairs (.dimensionMismatch d t)

end Visit

variable {read : Data → Except Fault β}

theorem holds_nil : Holds read [] none none := ⟨by simp,.missing,.missing⟩

theorem Holds.not_problem {seen after : List (String × Data)} {p : String × Data}
    {value : Option β} {tag : Option Dimension}
    (h : Holds read (seen ++ p::after) value tag) (f : Fault) : ¬Problem read seen p f := by
  obtain ⟨hkeys,hvalue,htag⟩ := h
  rw [dataOf_append,dataOf_cons] at hvalue htag
  intro hp
  cases hp with
  | unknown hk => exact hk (hkeys _ (List.mem_append_right seen List.mem_cons_self))
  | @repeated k x hk hs =>
    have hne : dataOf k seen ≠ [] := fun hnil => dataOf_eq_nil_iff.mp hnil hs
    simp only [tagFields,List.mem_cons,List.not_mem_nil,or_false] at hk
    rcases hk with rfl | rfl
    · simpa using hvalue.eq_nil_of_append hne
    · simpa using htag.eq_nil_of_append hne
  | value hs hx =>
    rw [dataOf_eq_nil_iff.mpr hs] at hvalue
    obtain ⟨-,v,hv,-⟩ := found_cons_iff.mp hvalue
    simp [hx] at hv
  | dimension hs hx =>
    rw [dataOf_eq_nil_iff.mpr hs] at htag
    obtain ⟨-,t,ht,-⟩ := found_cons_iff.mp htag
    simp [hx] at ht

theorem Holds.visitTagged_of_problem {seen : List (String × Data)} {p : String × Data}
    {value : Option β} {tag : Option Dimension} (h : Holds read seen value tag)
    {f : Fault} (hp : Problem read seen p f) (after : List (String × Data)) :
    visitTagged read (p::after) value tag = .error f := by
  cases hp with
  | unknown hk =>
    simp only [tagFields,List.mem_cons,List.not_mem_nil,or_false,not_or] at hk
    simp [visitTagged,hk,tagFields]
  | repeated hk hs =>
    simp only [tagFields,List.mem_cons,List.not_mem_nil,or_false] at hk
    rcases hk with rfl | rfl
    · simp [visitTagged,h.value.isSome_iff.mpr hs]
    · simp [visitTagged,h.tag.isSome_iff.mpr hs]
  | value hs hx =>
    have hnone : ¬value.isSome = true := fun hv => hs (h.value.isSome_iff.mp hv)
    simp [visitTagged,hnone,hx,bind,Except.bind]
  | dimension hs hx =>
    have hnone : ¬tag.isSome = true := fun ht => hs (h.tag.isSome_iff.mp ht)
    simp [visitTagged,hnone,hx,bind,Except.bind]

/-- A pair that is not at fault adds to what is known. -/
theorem Holds.visitTagged_step {seen : List (String × Data)} {value : Option β}
    {tag : Option Dimension} (h : Holds read seen value tag) (p : String × Data) :
    (∃ f, Problem read seen p f) ∨
      ∃ value' tag', Holds read (seen ++ [p]) value' tag' ∧
        ∀ after, visitTagged read (p::after) value tag = visitTagged read after value' tag' := by
  obtain ⟨k,x⟩ := p
  by_cases hk : k ∈ tagFields
  · by_cases hs : k ∈ seen.map Prod.fst
    · exact .inl ⟨_,.repeated hk hs⟩
    have hkeys : ∀ q ∈ seen ++ [(k,x)], q.1 ∈ tagFields := by
      intro q hq
      rcases List.mem_append.mp hq with hq | hq
      · exact h.keys q hq
      · rwa [List.mem_singleton.mp hq]
    have hnew := dataOf_eq_nil_iff.mpr hs
    simp only [tagFields,List.mem_cons,List.not_mem_nil,or_false] at hk
    rcases hk with rfl | rfl
    · have hnone : ¬value.isSome = true := fun hv => hs (h.value.isSome_iff.mp hv)
      cases hx : read x with
      | error f => exact .inl ⟨f,.value hs hx⟩
      | ok v =>
        refine .inr ⟨some v,tag,⟨hkeys,?_,?_⟩,fun after => ?_⟩
        · simpa [hnew,dataOf_cons] using Found.once hx
        · simpa [dataOf_cons] using h.tag
        · simp [visitTagged,hnone,hx,bind,Except.bind]
    · have hnone : ¬tag.isSome = true := fun ht => hs (h.tag.isSome_iff.mp ht)
      cases hx : readDimension x with
      | error f => exact .inl ⟨f,.dimension hs hx⟩
      | ok t =>
        refine .inr ⟨value,some t,⟨hkeys,?_,?_⟩,fun after => ?_⟩
        · simpa [dataOf_cons] using h.value
        · simpa [hnew,dataOf_cons] using Found.once hx
        · simp [visitTagged,hnone,hx,bind,Except.bind]
  · exact .inl ⟨_,.unknown hk⟩

theorem isFaultless_nil : IsFaultless read [] := by
  intro before p after f h
  simp at h

theorem IsFaultless.of_append {a b : List (String × Data)} (h : IsFaultless read (a ++ b)) :
    IsFaultless read a := by
  rintro before p after f rfl
  exact h before p (after ++ b) f (by simp)

/-- What has been visited without a fault is known, and the visit goes on from there. -/
theorem exists_holds_of_isFaultless {pairs : List (String × Data)} (h : IsFaultless read pairs) :
    ∃ value tag, Holds read pairs value tag ∧
      ∀ after, visitTagged read (pairs ++ after) none none = visitTagged read after value tag := by
  induction pairs using List.reverseRecOn with
  | nil => exact ⟨none,none,holds_nil,fun after => rfl⟩
  | append_singleton pairs p ih =>
    obtain ⟨value,tag,hpairs,hvisit⟩ := ih h.of_append
    rcases hpairs.visitTagged_step p with ⟨f,hp⟩ | ⟨value',tag',hall,hstep⟩
    · exact absurd hp (h pairs p [] f rfl)
    · refine ⟨value',tag',hall,fun after => ?_⟩
      rw [List.append_assoc,hvisit]
      exact hstep after

theorem Holds.isFaultless {pairs : List (String × Data)} {value : Option β}
    {tag : Option Dimension} (h : Holds read pairs value tag) : IsFaultless read pairs := by
  rintro before p after f rfl
  exact h.not_problem f

theorem isFaultless_or_firstProblem (read : Data → Except Fault β)
    (pairs : List (String × Data)) :
    IsFaultless read pairs ∨ ∃ f, FirstProblem read pairs f := by
  induction pairs using List.reverseRecOn with
  | nil => exact .inl isFaultless_nil
  | append_singleton pairs p ih =>
    rcases ih with h | ⟨f,before,q,after,rfl,hbefore,hq⟩
    · obtain ⟨value,tag,hpairs,-⟩ := exists_holds_of_isFaultless h
      rcases hpairs.visitTagged_step p with ⟨f,hp⟩ | ⟨value',tag',hall,-⟩
      · exact .inr ⟨f,pairs,p,[],rfl,h,hp⟩
      · exact .inl hall.isFaultless
    · exact .inr ⟨f,before,q,after ++ [p],by simp,hbefore,hq⟩

theorem visitTagged_of_firstProblem {pairs : List (String × Data)} {f : Fault}
    (h : FirstProblem read pairs f) :
    (visitTagged read pairs none none : Except Fault (Option β × Option Dimension)) =
      .error f := by
  obtain ⟨before,p,after,rfl,hbefore,hp⟩ := h
  obtain ⟨value,tag,hseen,hvisit⟩ := exists_holds_of_isFaultless hbefore
  rw [hvisit,hseen.visitTagged_of_problem hp]

theorem IsFaultless.not_firstProblem {pairs : List (String × Data)} (h : IsFaultless read pairs)
    {f : Fault} : ¬FirstProblem read pairs f := by
  rintro ⟨before,p,after,hpairs,-,hp⟩
  exact h before p after f hpairs hp

theorem Holds.visitTagged_eq {pairs : List (String × Data)} {value : Option β}
    {tag : Option Dimension} (h : Holds read pairs value tag) :
    visitTagged read pairs none none = .ok (value,tag) := by
  obtain ⟨value',tag',h',hvisit⟩ := exists_holds_of_isFaultless h.isFaultless
  rw [h.value.unique h'.value,h.tag.unique h'.tag]
  simpa [visitTagged] using hvisit []

variable {d : Dimension}

theorem readPairs_of_firstProblem {pairs : List (String × Data)} {f : Fault}
    (h : FirstProblem read pairs f) : readPairs read d pairs = .error f := by
  simp [readPairs,visitTagged_of_firstProblem h,bind,Except.bind]

/-- The value is there once, the dimension at most once and then the right one, and both can be
read. -/
structure IsTagged (read : Data → Except Fault β) (d : Dimension) (pairs : List (String × Data))
    (v : β) : Prop where
  keys : ∀ p ∈ pairs, p.1 ∈ tagFields
  value : ∃ x, dataOf "value" pairs = [x] ∧ read x = .ok v
  tag : dataOf "dimension" pairs = [] ∨
    ∃ x, dataOf "dimension" pairs = [x] ∧ readDimension x = .ok d

theorem IsTagged.holds {pairs : List (String × Data)} {v : β} (h : IsTagged read d pairs v) :
    ∃ tag, Holds read pairs (some v) tag := by
  obtain ⟨hkeys,⟨x,hx,hv⟩,htag⟩ := h
  have hvalue : Found read (dataOf "value" pairs) (some v) := hx ▸ .once hv
  rcases htag with htag | ⟨y,hy,ht⟩
  · exact ⟨none,hkeys,hvalue,htag ▸ .missing⟩
  · exact ⟨some d,hkeys,hvalue,hy ▸ .once ht⟩

theorem IsTagged.perm {a b : List (String × Data)} {v : β} (h : IsTagged read d a v)
    (hab : a.Perm b) : IsTagged read d b v := by
  obtain ⟨hkeys,⟨x,hx,hv⟩,htag⟩ := h
  have hvalue := dataOf_perm hab "value"
  have hdim := dataOf_perm hab "dimension"
  rw [hx,List.singleton_perm] at hvalue
  refine ⟨fun p hp => hkeys p (hab.mem_iff.mpr hp),⟨x,hvalue.symm,hv⟩,?_⟩
  rcases htag with htag | ⟨y,hy,ht⟩
  · rw [htag,List.nil_perm] at hdim
    exact .inl hdim
  · rw [hy,List.singleton_perm] at hdim
    exact .inr ⟨y,hdim.symm,ht⟩

section End
variable {pairs : List (String × Data)} {value : Option β} {tag : Option Dimension}

theorem Holds.isTagged_iff (h : Holds read pairs value tag) {v : β} :
    IsTagged read d pairs v ↔ value = some v ∧ (tag = none ∨ tag = some d) := by
  rw [h.value.eq_some_iff,h.tag.eq_none_iff,h.tag.eq_some_iff]
  exact ⟨fun hq => ⟨hq.value,hq.tag⟩,fun hq => ⟨h.keys,hq.1,hq.2⟩⟩

theorem Holds.readPairs_eq_ok_iff (h : Holds read pairs value tag) {v : β} :
    readPairs read d pairs = .ok v ↔ IsTagged read d pairs v := by
  rw [h.isTagged_iff]
  simp only [readPairs,h.visitTagged_eq,bind,Except.bind]
  cases value with
  | none => simp
  | some w =>
    cases tag with
    | none => simp
    | some t => by_cases ht : t = d <;> simp [ht]

theorem Holds.readPairs_eq_error_iff (h : Holds read pairs value tag) {f : Fault} :
    readPairs read d pairs = .error f ↔ EndProblem d pairs f := by
  have hvalue : value = none ↔ "value" ∉ pairs.map Prod.fst :=
    h.value.eq_none_iff.trans dataOf_eq_nil_iff
  have htag : ∀ t, tag = some t ↔ ∃ x, ("dimension",x) ∈ pairs ∧ readDimension x = .ok t := by
    intro t
    simp only [h.tag.eq_some_iff_mem,mem_dataOf_iff]
  simp only [readPairs,h.visitTagged_eq,bind,Except.bind]
  constructor
  · intro hf
    cases value with
    | none =>
      cases hf
      exact .missing (hvalue.mp rfl)
    | some v =>
      have hv : "value" ∈ pairs.map Prod.fst := by
        by_contra hv
        simpa using hvalue.mpr hv
      cases tag with
      | none => simp at hf
      | some t =>
        obtain ⟨x,hx,ht⟩ := (htag t).mp rfl
        by_cases hne : t = d
        · simp [hne] at hf
        · simp only [hne,if_false,Except.error.injEq] at hf
          exact hf ▸ .mismatch hv hx ht hne
  · intro hend
    cases hend with
    | missing hv => simp [hvalue.mpr hv]
    | @mismatch hv x t hx ht hne =>
      have hsome : value ≠ none := fun hnone => hvalue.mp hnone hv
      obtain ⟨v,rfl⟩ := Option.ne_none_iff_exists'.mp hsome
      simp [(htag t).mpr ⟨x,hx,ht⟩,hne]

end End

theorem readPairs_eq_ok_iff {pairs : List (String × Data)} {v : β} :
    readPairs read d pairs = .ok v ↔ IsTagged read d pairs v := by
  rcases isFaultless_or_firstProblem read pairs with h | ⟨f,h⟩
  · obtain ⟨value,tag,hall,-⟩ := exists_holds_of_isFaultless h
    exact hall.readPairs_eq_ok_iff
  · refine ⟨fun hv => ?_,fun hv => ?_⟩
    · simp [readPairs_of_firstProblem h] at hv
    · obtain ⟨tag,hall⟩ := hv.holds
      exact absurd h hall.isFaultless.not_firstProblem

theorem readTagged_eq_ok_iff {α : Type} [Scalar α] {n : Nat} {pairs : List (String × Data)}
    {q : Quantity d n α} :
    readTagged d n (.record pairs) = .ok q ↔ IsTagged (readComponents n) d pairs q.value := by
  rw [← readPairs_eq_ok_iff,readTagged]
  cases readPairs (readComponents n : Data → Except Fault (Vector α n)) d pairs with
  | error f => simp [Except.map]
  | ok v =>
    cases q
    simp [Except.map]

theorem readTagged_eq_error_iff {α : Type} [Scalar α] {n : Nat} {pairs : List (String × Data)}
    {f : Fault} : (readTagged d n (.record pairs) : Except Fault (Quantity d n α)) = .error f ↔
      (readPairs (readComponents n) d pairs : Except Fault (Vector α n)) = .error f := by
  rw [readTagged]
  cases readPairs (readComponents n : Data → Except Fault (Vector α n)) d pairs <;>
    simp [Except.map]

/-- A value with its dimension is read exactly if it is well formed, in whatever order the pairs
come. If it is not, the first pair at fault is reported, and with none at fault that the value is
missing, and at the very last a dimension that does not match. -/
theorem readTagged_iff_isTagged (d : Dimension) (pairs : List (String × Data)) :
    (∀ (α : Type) [Scalar α] (n : Nat),
      (∀ q : Quantity d n α, readTagged d n (.record pairs) = .ok q ↔
        IsTagged (readComponents n) d pairs q.value) ∧
      ∀ f, (readTagged d n (.record pairs) : Except Fault (Quantity d n α)) = .error f ↔
        (readPairs (readComponents n) d pairs : Except Fault (Vector α n)) = .error f) ∧
    ∀ (β : Type) (read : Data → Except Fault β),
      (∀ v, readPairs read d pairs = .ok v ↔ IsTagged read d pairs v) ∧
      (∀ v pairs', pairs.Perm pairs' →
        (readPairs read d pairs = .ok v ↔ readPairs read d pairs' = .ok v)) ∧
      ∀ f, readPairs read d pairs = .error f ↔
        FirstProblem read pairs f ∨ IsFaultless read pairs ∧ EndProblem d pairs f := by
  refine ⟨fun α _ n => ⟨fun q => readTagged_eq_ok_iff,fun f => readTagged_eq_error_iff⟩,
    fun β read => ?_⟩
  refine ⟨fun v => readPairs_eq_ok_iff,fun v pairs' hperm => ?_,fun f => ?_⟩
  · rw [readPairs_eq_ok_iff,readPairs_eq_ok_iff]
    exact ⟨fun h => h.perm hperm,fun h => h.perm hperm.symm⟩
  · rcases isFaultless_or_firstProblem read pairs with h | ⟨g,h⟩
    · obtain ⟨value,tag,hall,-⟩ := exists_holds_of_isFaultless h
      rw [hall.readPairs_eq_error_iff]
      exact ⟨fun hend => .inr ⟨h,hend⟩,fun hf => (hf.resolve_left h.not_firstProblem).2⟩
    · constructor
      · intro hf
        cases (readPairs_of_firstProblem h).symm.trans hf
        exact .inl h
      · rintro (hf | ⟨hno,-⟩)
        · exact readPairs_of_firstProblem hf
        · exact absurd h hno.not_firstProblem

/-- The second value is not even looked at, and the name after it is never reached. -/
theorem readTagged_iff_isTagged_length :
    let tag : String × Data := ("dimension",ofDimension .length)
    let value : String × Data := ("value",.float 2.5)
    let q : Quantity .length 1 Float := .ofScalar 2.5
    [tag,value].Perm [value,tag] ∧ readTagged .length 1 (.record [tag,value]) = .ok q ∧
      readPairs readNumber .length [value,tag] = .ok (2.5 : Float) ∧
      (readPairs readNumber .length [value,("value",.null),("mass",.null)] : Except Fault Float) =
        .error (.duplicateField "value") := by
  intro tag value q
  have hperm : [tag,value].Perm [value,tag] := .swap value tag []
  have hlength : readDimension (ofDimension .length) = .ok .length :=
    readDimension_ofDimension (by decide)
  have hq : IsTagged (readComponents 1) .length [tag,value] q.value :=
    ⟨by simp [tag,value,tagFields],⟨.float 2.5,rfl,rfl⟩,.inr ⟨_,rfl,hlength⟩⟩
  have hv : IsTagged readNumber .length [tag,value] (2.5 : Float) :=
    ⟨by simp [tag,value,tagFields],⟨.float 2.5,rfl,rfl⟩,.inr ⟨_,rfl,hlength⟩⟩
  obtain ⟨hquantity,hpairs⟩ := readTagged_iff_isTagged .length [tag,value]
  obtain ⟨hok,hanyOrder,-⟩ := hpairs Float readNumber
  have hseen : Holds readNumber [value] (some (2.5 : Float)) none :=
    ⟨by simp [value,tagFields],.once rfl,.missing⟩
  have hrepeated : Problem (readNumber : Data → Except Fault Float) [value] ("value",.null)
      (.duplicateField "value") :=
    .repeated (by simp [tagFields]) (by simp [value])
  have hfirst := (readTagged_iff_isTagged .length [value,("value",.null),("mass",.null)]).2
    Float readNumber
  exact ⟨hperm,((hquantity Float 1).1 q).mpr hq,(hanyOrder _ _ hperm).mp ((hok _).mpr hv),
    (hfirst.2.2 _).mpr (.inl ⟨[value],_,_,rfl,hseen.isFaultless,hrepeated⟩)⟩

end Reading

/-! Writing a quantity and reading it back, with its dimension and without. Single precision is
written as double precision, which loses nothing. -/

variable {α β : Type} [Scalar α] [Scalar β] {d d' : Dimension} {n m : Nat}

theorem readNumber_ofNumber {x : α} (hx : Scalar.isFinite x)
    (hwidth : (Scalar.ofFloat (Scalar.toFloat x) : α) = x) : readNumber (ofNumber x) = .ok x := by
  rw [ofNumber,if_pos hx,readNumber,hwidth]

/-- The written dimension must be the one that is asked for, whatever the components are. -/
theorem dimension_eq_of_readTagged (hd : d.Fits) {q : Quantity d n α} {p : Quantity d' m β}
    (h : readTagged d' m (ofTagged q) = .ok p) : d = d' := by
  obtain ⟨-,-,htag⟩ := readTagged_eq_ok_iff.mp h
  have hdata : dataOf "dimension" [("value",ofComponents q.value),("dimension",ofDimension d)] =
      [ofDimension d] := rfl
  rw [hdata] at htag
  rcases htag with hnone | ⟨x,hx,ht⟩
  · cases hnone
  · cases hx
    rw [readDimension_ofDimension hd] at ht
    exact Except.ok.inj ht

/-- What reading makes of a quantity that has been written. -/
structure ReadsBack (q : Quantity d n α) : Prop where
  plain : readPlain d n (ofPlain q) = .ok q
  tagged : readTagged d n (ofTagged q) = .ok q
  mismatch : ∀ d' ≠ d, (readTagged d' n (ofTagged q) : Except Fault (Quantity d' n α)) =
    .error (.dimensionMismatch d' d)

theorem readsBack_of_components (hd : d.Fits) {q : Quantity d n α}
    (h : readComponents n (ofComponents q.value) = .ok q.value) : ReadsBack q := by
  have hdimension : readDimension (ofDimension d) = .ok d := readDimension_ofDimension hd
  have hvisit : visitTagged (readComponents n)
      [("value",ofComponents q.value),("dimension",ofDimension d)] none none =
        .ok (some q.value,some d) := by
    simp [visitTagged,h,hdimension,bind,Except.bind]
  constructor
  · simp [readPlain,ofPlain,h,Except.map]
  · simp [readTagged,readPairs,ofTagged,hvisit,bind,Except.bind,Except.map]
  · intro d' hne
    simp [readTagged,readPairs,ofTagged,hvisit,hne.symm,bind,Except.bind,Except.map]

theorem readsBack_of_width (hd : d.Fits) (hn : n ≤ 3)
    (hwidth : ∀ x : α, (Scalar.ofFloat (Scalar.toFloat x) : α) = x) {q : Quantity d n α}
    (hq : ∀ x ∈ q.value, Scalar.isFinite x) : ReadsBack q :=
  readsBack_of_components hd
    (readComponents_ofComponents hn fun x hx => readNumber_ofNumber (hq x hx) (hwidth x))

/-- A quantity with finite components reads back as itself, bit for bit, in single precision as in
double precision, and at no dimension but its own. -/
theorem written_reads_back (hd : d.Fits) (hn : n ≤ 3) :
    (∀ q : Quantity d n Float, (∀ x ∈ q.value, Scalar.isFinite x) → ReadsBack q) ∧
    (∀ q : Quantity d n Float32, (∀ x ∈ q.value, Scalar.isFinite x) → ReadsBack q) ∧
    ∀ (α β : Type) [Scalar α] [Scalar β] (q : Quantity d n α) (d' : Dimension) (m : Nat)
      (p : Quantity d' m β), d' ≠ d → readTagged d' m (ofTagged q) ≠ .ok p := by
  refine ⟨fun q hq => ?_,fun q hq => ?_,fun α β _ _ q d' m p hne h => ?_⟩
  · exact readsBack_of_width hd hn (fun _ => rfl) hq
  · exact readsBack_of_width hd hn Scalar.ofFloat_toFloat_single hq
  · exact hne (dimension_eq_of_readTagged hd h).symm

/-- A tenth is not exact in single precision, and is widened as it is. -/
theorem written_reads_back_velocity :
    let q : Quantity .velocity 3 Float32 := ⟨#v[0.1,-2.5,0]⟩
    Dimension.velocity.Fits ∧ 3 ≤ 3 ∧ (∀ x ∈ q.value, Scalar.isFinite x) ∧
      ReadsBack q ∧
      ∀ p : Quantity .length 1 Float, readTagged .length 1 (ofTagged q) ≠ .ok p := by
  intro q
  have hd : Dimension.velocity.Fits := by decide
  have hq : ∀ x ∈ q.value, Scalar.isFinite x := by decide +kernel
  have hback := written_reads_back (d := .velocity) (n := 3) hd (by decide)
  exact ⟨hd,by decide,hq,hback.2.1 q hq,fun p => hback.2.2 _ _ q .length 1 p (by decide)⟩

end Mensura.Data
