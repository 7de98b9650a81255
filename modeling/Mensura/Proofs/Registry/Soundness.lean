import Mensura.Proofs.Registry.Extension

/-! Registries without faults. The empty and the built-in registry are such, and every run of
changes keeps them so; a change that succeeds adds as many units as it says, and one that fails
leaves no trace. -/
namespace Mensura
namespace Registry

structure Sound (r : Registry) : Prop where
  /-- No entry hides another one. -/
  lookup_symbol : ∀ e ∈ r.entries, r.lookup e.symbol = some e
  fault?_eq_none : ∀ e ∈ r.entries, e.fault? = none

/-- An entry that is added hides none of the others if it has a symbol of its own. -/
theorem lookup_symbol_add {r : Registry} {e : Entry}
    (h : ∀ f ∈ r.entries, r.lookup f.symbol = some f)
    (hne : ∀ f ∈ r.entries, e.symbol ≠ f.symbol) :
    ∀ f ∈ (r.add e).entries, (r.add e).lookup f.symbol = some f := by
  intro f hf
  rw [lookup_add]
  rcases List.mem_cons.mp hf with rfl | hf
  · exact if_pos rfl
  · rw [if_neg (hne f hf)]
    exact h f hf

theorem lookup_symbol_of_nodup {es : List Entry} (h : (es.map Entry.symbol).Nodup) :
    ∀ e ∈ es, (⟨es⟩ : Registry).lookup e.symbol = some e := by
  induction es with
  | nil => simp
  | cons e es ih =>
    obtain ⟨he,hes⟩ := List.nodup_cons.mp h
    exact lookup_symbol_add (r := ⟨es⟩) (ih hes) fun f hf hs => he (hs ▸ List.mem_map_of_mem hf)

theorem sound_empty : Sound .empty := ⟨by simp [empty],by simp [empty]⟩

theorem sound_builtin : Sound builtin where
  lookup_symbol := lookup_symbol_of_nodup (by decide +kernel)
  fault?_eq_none := by
    have h : builtin.entries.all (fun e => e.fault?.isNone) = true := by decide +kernel
    intro e he
    simpa using List.all_eq_true.mp h e he

theorem Sound.add {r : Registry} {e : Entry} (h : r.Sound) (hfit : e.fault? = none)
    (hnew : r.knows e.symbol = false) : (r.add e).Sound where
  lookup_symbol := lookup_symbol_add h.lookup_symbol fun f hf hs => by
    simp [knows,hs,h.lookup_symbol f hf] at hnew
  fault?_eq_none f hf := by
    rcases List.mem_cons.mp hf with rfl | hf
    · exact hfit
    · exact h.fault?_eq_none f hf

theorem Sound.extends {r s : Registry} {es : List Entry} (h : r.Sound) (hs : r.Extends es s) :
    s.Sound := by
  induction hs with
  | refl => exact h
  | add _ hfit hnew ih => exact ih.add hfit hnew

end Registry

namespace Change

theorem after_eq_of_apply {r s : Registry} {c : Change} {n : Nat}
    (h : (c.apply r).result = .ok (s,n)) : c.after r = s := by
  simp [after,h]

/-- A change, successful or not, adds entries. -/
theorem extends_after (r : Registry) (c : Change) :
    ∃ us, r.Extends us (c.after r) := by
  cases h : (c.apply r).result with
  | ok p =>
    obtain ⟨us,hus,-⟩ := extends_of_apply h
    rw [after_eq_of_apply h]
    exact ⟨us,hus⟩
  | error e =>
    rw [after_of_error h]
    exact ⟨[],.refl⟩

theorem sound_run {start : Registry} (h : start.Sound) (cs : List Change) :
    (run start cs).Sound := by
  induction cs generalizing start with
  | nil => exact h
  | cons c cs ih =>
    obtain ⟨us,hus⟩ := extends_after start c
    exact ih (h.extends hus)

/-- Whatever changes have been made before, the next one keeps the registry sound and what it
knows, has no effect if it fails, and has the effect it tells of if it succeeds. -/
theorem run_preserves_registry :
    Registry.empty.Sound ∧ Registry.builtin.Sound ∧
      ∀ start : Registry, start.Sound → ∀ (cs : List Change) (c : Change),
        (c.after (run start cs)).Sound ∧
        (∀ symbol e, (run start cs).lookup symbol = some e →
          (c.after (run start cs)).lookup symbol = some e) ∧
        (∀ fault, (c.apply (run start cs)).result = .error fault →
          ∀ symbol, (c.after (run start cs)).lookup symbol = (run start cs).lookup symbol) ∧
        ∀ s n, (c.apply (run start cs)).result = .ok (s,n) → c.after (run start cs) = s ∧
          match c with
          | .load _ => s.size = (run start cs).size + n
          | _ => s.size = (run start cs).size + 1 := by
  refine ⟨Registry.sound_empty,Registry.sound_builtin,fun start hstart cs c => ?_⟩
  obtain ⟨us,hus⟩ := extends_after (run start cs) c
  refine ⟨(sound_run hstart cs).extends hus,fun symbol e he => hus.lookup_eq he,?_,?_⟩
  · intro fault hfault symbol
    rw [after_of_error hfault]
  · intro s n hs
    refine ⟨after_eq_of_apply hs,?_⟩
    obtain ⟨vs,hvs,hlen,-⟩ := extends_of_apply hs
    have hsize := hvs.size_eq
    rw [hlen] at hsize
    cases c with
    | insert e =>
      obtain ⟨-,rfl⟩ := apply_insert_eq_ok_iff.mp hs
      exact hsize
    | define symbol definition =>
      obtain ⟨-,rfl⟩ := apply_define_eq_ok_iff.mp hs
      exact hsize
    | load text => exact hsize

theorem run_preserves_registry_furlong :
    let cs : List Change := [.define "furlong".toList "201.168 m".toList,
      .define "m".toList "1 furlong".toList]
    let c : Change := .define "rod".toList "0.025 furlong".toList
    Registry.builtin.Sound ∧ (c.after (run .builtin cs)).Sound ∧
      ∃ s n, (c.apply (run .builtin cs)).result = .ok (s,n) ∧ c.after (run .builtin cs) = s ∧
        s.size = (run .builtin cs).size + 1 := by
  intro cs c
  obtain ⟨⟨s,n⟩,hs⟩ : ∃ p, (c.apply (run .builtin cs)).result = .ok p :=
    Outcome.exists_eq_ok (by decide +kernel)
  have h := run_preserves_registry.2.2 .builtin Registry.sound_builtin cs c
  exact ⟨Registry.sound_builtin,h.1,s,n,hs,h.2.2.2 s n hs⟩

end Change

/-! Reading a quantity. A text is accepted at a dimension exactly if it is a number and a signature
that stands for units of this dimension, so it is never accepted at two of them. -/
namespace Registry
open UnitPower

/-- What can be read can also be converted back. -/
theorem Means.isUsable {r : Registry} (hr : ∀ e ∈ r.entries, e.fault? = none)
    {signature : List Char} {c : Resolution} (h : r.Means signature c) :
    isUsable c.conversion.factor = true := by
  rcases h with ⟨-,rfl⟩ | ⟨ts,-,hc⟩
  · exact isUsable_one
  · cases hc with
    | offset he _ => exact Entry.isUsable_of_fault? (hr _ (mem_entries_of_lookup he))
    | product _ _ hf => exact hf

theorem read_eq_ok_iff {α : Type} [Scalar α] {r : Registry} {d : Dimension} {text : List Char}
    {q : Quantity d 1 α} :
    (r.read d text).result = .ok q ↔ ∃ x c, (r.measure text).result = .ok (x,c) ∧
      c.dimension = d ∧ q = .ofScalar (Scalar.ofFloat (c.conversion.toBase x)) := by
  simp only [read,Outcome.bind_eq_ok_iff,Prod.exists]
  refine exists_congr fun x => exists_congr fun c => and_congr_right fun _ => ?_
  split
  · rename_i hd
    simp [hd,eq_comm]
  · rename_i hd
    simp [hd]

/-- A text has at most one dimension. -/
theorem dimension_unique {α β : Type} [Scalar α] [Scalar β] {r : Registry} {a b : Dimension}
    {text : List Char} {p : Quantity a 1 α} {q : Quantity b 1 β}
    (hp : (r.read a text).result = .ok p) (hq : (r.read b text).result = .ok q) : a = b := by
  obtain ⟨x,c,hm,rfl,-⟩ := read_eq_ok_iff.mp hp
  obtain ⟨y,c',hm',rfl,-⟩ := read_eq_ok_iff.mp hq
  cases hm.symm.trans hm'
  rfl

theorem reads_iff_means {r : Registry} (hr : ∀ e ∈ r.entries, e.fault? = none) {α : Type}
    [Scalar α] (d : Dimension) (text : List Char) :
    (∀ q : Quantity d 1 α, (r.read d text).result = .ok q ↔
      ∃ x signature, Measurement.split text = .ok (x,signature) ∧
        ∃ c, r.Means signature c ∧ c.dimension = d ∧
          q = .ofScalar (Scalar.ofFloat (c.conversion.toBase x))) ∧
    (∀ signature c, r.Means signature c → isUsable c.conversion.factor = true) ∧
    ∀ (β : Type) [Scalar β] (d' : Dimension) (p : Quantity d 1 α) (q : Quantity d' 1 β),
      (r.read d text).result = .ok p → (r.read d' text).result = .ok q → d = d' := by
  refine ⟨fun q => ?_,fun _ _ h => h.isUsable hr,fun _ _ _ _ _ => dimension_unique⟩
  simp only [read_eq_ok_iff,measure_eq_ok_iff]
  constructor
  · rintro ⟨x,c,⟨signature,hs,hc⟩,hd,hq⟩
    exact ⟨x,signature,hs,c,hc,hd,hq⟩
  · rintro ⟨x,signature,hs,c,hc,hd,hq⟩
    exact ⟨x,c,⟨signature,hs,hc⟩,hd,hq⟩

theorem reads_iff_means_velocity :
    (∀ e ∈ builtin.entries, e.fault? = none) ∧
      (∃ q : Quantity .velocity 1 Float,
        (builtin.read .velocity "100 km/h".toList).result = .ok q ∧
        ∃ x signature, Measurement.split "100 km/h".toList = .ok (x,signature) ∧
          ∃ c, builtin.Means signature c ∧ c.dimension = .velocity ∧
            q = .ofScalar (Scalar.ofFloat (c.conversion.toBase x))) ∧
      ∀ d (q : Quantity d 1 Float32),
        (builtin.read d "100 km/h".toList).result = .ok q → .velocity = d := by
  have hvalid := sound_builtin.fault?_eq_none
  have h := reads_iff_means hvalid (α := Float) .velocity "100 km/h".toList
  obtain ⟨q,hq⟩ : ∃ q : Quantity .velocity 1 Float,
      (builtin.read .velocity "100 km/h".toList).result = .ok q :=
    Outcome.exists_eq_ok (by decide +kernel)
  exact ⟨hvalid,⟨q,hq,(h.1 q).mp hq⟩,fun d p hp => h.2.2 Float32 d q p hq hp⟩

end Registry
end Mensura
