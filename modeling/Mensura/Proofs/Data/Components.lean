import Mathlib.Data.List.FinRange
import Mensura.Data
import Mensura.Proofs.Dimension.Arithmetic

/-! Reading the parts of a quantity back from what has been written: the components, which are a
bare number or a record of named numbers, and the five exponents of the dimension. -/
namespace Mensura.Data
variable {α β ε : Type} {n : Nat}

theorem ofFnM_eq_ok {f : Fin n → Except ε β} {v : Vector β n} (h : ∀ i, f i = .ok (v.get i)) :
    Vector.ofFnM f = .ok v := by
  have hf : f = fun i => pure (v.get i) := funext h
  have hv : (Vector.ofFn fun i : Fin n => v.get i) = v := by
    apply Vector.ext
    intro i hi
    rw [Vector.getElem_ofFn]
    rfl
  rw [hf,Vector.ofFnM_pure,hv]
  rfl

/-- A list of written items is read item by item. -/
theorem readItems_map {shape : Shape} {item : Data → Except Fault β} {write : β → Data}
    {v : Vector β n} (h : ∀ x ∈ v, item (write x) = .ok x) :
    readItems n shape item (v.toList.map write) = .ok v := by
  have hlen : (v.toList.map write).length = n := by simp
  rw [readItems,ofFnM_eq_ok (v := v)]
  · simp [hlen,bind,Except.bind]
  · intro i
    have hget : v.get i = v[i.val] := rfl
    rw [hget]
    simpa using h v[i.val] (Vector.getElem_mem i.isLt)

theorem readExponent_integer {k : Int} (h : Dimension.fits k = true) :
    readExponent (integer k) = .ok k := by
  simp [readExponent,Dimension.checked?,h]

theorem readDimension_ofDimension {d : Dimension} (h : d.Fits) :
    readDimension (ofDimension d) = .ok d := by
  have hread : ∀ k ∈ #v[d.L,d.M,d.T,d.Θ,d.A], readExponent (integer k) = .ok k :=
    fun k hk => readExponent_integer (h k (Vector.mem_toList_iff.mpr hk))
  have hitems : readItems 5 .dimension readExponent (d.exponents.map integer) =
      .ok #v[d.L,d.M,d.T,d.Θ,d.A] :=
    readItems_map hread
  simp [readDimension,ofDimension,hitems,bind,Except.bind]

theorem lookup_of_mem {values : List (String × β)} (hnodup : (values.map Prod.fst).Nodup)
    {k : String} {x : β} (h : (k,x) ∈ values) : values.lookup k = some x := by
  obtain ⟨a,b,rfl⟩ := List.append_of_mem h
  refine List.lookup_eq_some_iff.mpr ⟨a,b,rfl,fun p hp => ?_⟩
  have hne : k ≠ p.1 := by
    intro hk
    rw [List.map_append,List.map_cons,List.nodup_middle,List.nodup_cons] at hnodup
    exact hnodup.1 (List.mem_append_left _ (List.mem_map.mpr ⟨p,hp,hk.symm⟩))
  simpa using hne

/-- Every axis has a name, and no two have the same. -/
theorem axisName_mem {i : Nat} (hn : n ≤ 3) (hi : i < n) :
    Components.axisName i ∈ Components.axisNames.take n := by
  have hall : ∀ n ≤ 3, ∀ i < n, Components.axisName i ∈ Components.axisNames.take n := by decide
  exact hall n hn i hi

theorem axisName_injective (hn : n ≤ 3) :
    Function.Injective fun i : Fin n => Components.axisName i.val := by
  have hall : ∀ i < 3, ∀ j < 3, Components.axisName i = Components.axisName j → i = j := by decide
  intro i j h
  exact Fin.ext (hall i (by omega) j (by omega) h)

/-- The components under the names of their axes. -/
def named (v : Vector α n) : List (String × α) :=
  List.ofFn fun i : Fin n => (Components.axisName i.val,v.get i)

theorem mem_named_iff {v : Vector α n} {p : String × α} :
    p ∈ named v ↔ ∃ i : Fin n, (Components.axisName i.val,v.get i) = p :=
  List.mem_ofFn

theorem nodup_named (hn : n ≤ 3) (v : Vector α n) : ((named v).map Prod.fst).Nodup := by
  have hkeys : (named v).map Prod.fst = List.ofFn fun i : Fin n => Components.axisName i.val := by
    simp [named,List.map_ofFn,Function.comp_def]
  rw [hkeys]
  exact List.nodup_ofFn.mpr (axisName_injective hn)

theorem require_named (hn : n ≤ 3) (v : Vector α n) (i : Fin n) :
    require (named v).reverse (Components.axisName i.val) = .ok (v.get i) := by
  have hmem : (Components.axisName i.val,v.get i) ∈ (named v).reverse :=
    List.mem_reverse.mpr (mem_named_iff.mpr ⟨i,rfl⟩)
  have hnodup : ((named v).reverse.map Prod.fst).Nodup := by
    rw [List.map_reverse]
    exact List.nodup_reverse.mpr (nodup_named hn v)
  rw [require,lookup_of_mem hnodup hmem]

variable [Scalar α]

/-- Numbers under distinct names are all collected, the last one first. -/
theorem gather_ofNumber {names : List String} {values seen : List (String × α)}
    (hread : ∀ p ∈ values, readNumber (ofNumber p.2) = .ok p.2)
    (hnames : ∀ p ∈ values, p.1 ∈ names)
    (hnew : (values.map Prod.fst ++ seen.map Prod.fst).Nodup) :
    gather names (values.map fun p => (p.1,ofNumber p.2)) seen = .ok (values.reverse ++ seen) := by
  induction values generalizing seen with
  | nil => rfl
  | cons p values ih =>
    obtain ⟨hp,hread⟩ := List.forall_mem_cons.mp hread
    obtain ⟨hk,hnames⟩ := List.forall_mem_cons.mp hnames
    have hmiddle : (values.map Prod.fst ++ p.1::seen.map Prod.fst).Nodup :=
      List.nodup_middle.mpr hnew
    have hnext : gather names (values.map fun p => (p.1,ofNumber p.2)) (p::seen) =
        .ok (values.reverse ++ p::seen) := ih hread hnames hmiddle
    have hlookup : seen.lookup p.1 = none := by
      rw [List.map_cons,List.cons_append,List.nodup_cons] at hnew
      refine List.lookup_eq_none_iff.mpr fun q hq => ?_
      have hne : p.1 ≠ q.1 := fun he =>
        hnew.1 (List.mem_append_right _ (he ▸ List.mem_map_of_mem hq))
      simpa using hne
    simp [gather,hk,hlookup,hp,hnext,bind,Except.bind]

theorem ofComponents_of_ne_one (h : n ≠ 1) (v : Vector α n) :
    ofComponents v = .record ((named v).map fun p => (p.1,ofNumber p.2)) := by
  simp [ofComponents,h,named,List.map_ofFn,Function.comp_def]

theorem gather_named (hn : n ≤ 3) {v : Vector α n}
    (hv : ∀ x ∈ v, readNumber (ofNumber x) = .ok x) :
    gather (Components.axisNames.take n) ((named v).map fun p => (p.1,ofNumber p.2)) [] =
      .ok (named v).reverse := by
  have hread : ∀ p ∈ named v, readNumber (ofNumber p.2) = .ok p.2 := by
    intro p hp
    obtain ⟨i,rfl⟩ := mem_named_iff.mp hp
    exact hv _ (Vector.getElem_mem i.isLt)
  have hnames : ∀ p ∈ named v, p.1 ∈ Components.axisNames.take n := by
    intro p hp
    obtain ⟨i,rfl⟩ := mem_named_iff.mp hp
    exact axisName_mem hn i.isLt
  have hnew : ((named v).map Prod.fst ++ ([] : List (String × α)).map Prod.fst).Nodup := by
    simpa using nodup_named hn v
  simpa using gather_ofNumber hread hnames hnew

/-- Components are read back if each of their numbers is. -/
theorem readComponents_ofComponents (hn : n ≤ 3) {v : Vector α n}
    (hv : ∀ x ∈ v, readNumber (ofNumber x) = .ok x) :
    readComponents n (ofComponents v) = .ok v := by
  unfold readComponents
  by_cases h : n = 1
  · subst h
    have hone : Vector.replicate 1 v[0] = v := by
      apply Vector.ext
      intro i hi
      obtain rfl : i = 0 := by omega
      simp
    have hread : readNumber (ofNumber v[0]) = .ok v[0] := hv _ (Vector.getElem_mem Nat.zero_lt_one)
    rw [if_pos rfl,ofComponents,dif_pos rfl,hread]
    exact congrArg Except.ok hone
  · rw [if_neg h,ofComponents_of_ne_one h]
    simp only [gather_named hn hv,ofFnM_eq_ok (require_named hn v),bind,Except.bind]

end Mensura.Data
