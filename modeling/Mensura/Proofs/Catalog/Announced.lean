import Mensura.Proofs.Catalog.Transaction

/-! The units that the log reports as registered. An insertion or a definition reports its unit
exactly if it succeeds. A load reports the unit of every entry that succeeds, also if a later one
fails; then nothing is registered, but the log has already told of the entries before. -/
namespace Mensura

/-- The symbol of the unit that is reported as registered. -/
def Event.newSymbol? : Event → Option (List Char)
  | registered e => some e.symbol
  | _ => none

namespace Outcome
variable {ε ε' α β : Type}

/-- The symbols that are reported as registered, in the order of the log. -/
def announced (x : Outcome ε α) : List (List Char) := x.events.filterMap Event.newSymbol?

theorem announced_bind_ok {x : Outcome ε α} {a : α} (h : x.result = .ok a)
    (f : α → Outcome ε β) : (x >>= f).announced = x.announced ++ (f a).announced := by
  simp [announced,events_bind_ok h]

theorem announced_bind_error {x : Outcome ε α} {e : ε} (h : x.result = .error e)
    (f : α → Outcome ε β) : (x >>= f).announced = x.announced := by
  simp [announced,events_bind_error h]

theorem announced_bind_eq_nil {x : Outcome ε α} {f : α → Outcome ε β} (hx : x.announced = [])
    (hf : ∀ a, (f a).announced = []) : (x >>= f).announced = [] := by
  cases h : x.result with
  | error e => rw [announced_bind_error h,hx]
  | ok a => rw [announced_bind_ok h,hx,hf,List.append_nil]

theorem announced_reportError {f : ε → Event} (hf : ∀ e, (f e).newSymbol? = none)
    (x : Outcome ε α) : (x.reportError f).announced = x.announced := by
  cases h : x.result <;> simp [announced,reportError,h,hf]

/-- One unit is reported as registered if all goes well, and none otherwise. -/
structure Announces (symbol : List Char) (x : Outcome ε α) : Prop where
  of_ok : ∀ a, x.result = .ok a → x.announced = [symbol]
  of_error : ∀ e, x.result = .error e → x.announced = []

theorem Announces.fail (symbol : List Char) (e : ε) :
    Announces symbol (Outcome.fail e : Outcome ε α) where
  of_ok _ h := nomatch h
  of_error _ _ := rfl

theorem Announces.after_silent {symbol : List Char} {x : Outcome ε α} {f : α → Outcome ε β}
    (hx : x.announced = []) (hf : ∀ a, (f a).Announces symbol) : (x >>= f).Announces symbol := by
  cases h : x.result with
  | error e =>
    refine ⟨fun b hb => ?_,fun _ _ => (announced_bind_error h f).trans hx⟩
    rw [result_bind,h] at hb
    cases hb
  | ok a =>
    have hresult : (x >>= f).result = (f a).result := by
      rw [result_bind,h]
      rfl
    have hannounced : (x >>= f).announced = (f a).announced := by
      rw [announced_bind_ok h,hx,List.nil_append]
    constructor
    · rw [hresult,hannounced]
      exact (hf a).of_ok
    · rw [hresult,hannounced]
      exact (hf a).of_error

theorem Announces.bind_pure {symbol : List Char} {x : Outcome ε α} (h : x.Announces symbol)
    (f : α → β) : Announces symbol (x >>= fun a => pure (f a)) := by
  cases hx : x.result with
  | error e =>
    refine ⟨fun b hb => ?_,fun _ _ => (announced_bind_error hx _).trans (h.of_error e hx)⟩
    rw [result_bind,hx] at hb
    cases hb
  | ok a =>
    refine ⟨fun _ _ => ?_,fun e he => ?_⟩
    · rw [announced_bind_ok hx,h.of_ok a hx]
      rfl
    · rw [result_bind,hx] at he
      cases he

end Outcome

namespace Registry
open Outcome (Announces)

theorem announced_resolve (r : Registry) (signature : List Char) :
    (r.resolve signature).announced = [] := by
  unfold resolve
  refine Outcome.announced_bind_eq_nil rfl fun ts => ?_
  split
  · rfl
  · refine Outcome.announced_bind_eq_nil rfl fun ⟨d,f⟩ => ?_
    dsimp only
    split <;> rfl

theorem announced_measure (r : Registry) (text : List Char) : (r.measure text).announced = [] := by
  unfold measure
  refine Outcome.announced_bind_eq_nil rfl fun ⟨x,signature⟩ => ?_
  dsimp only
  split
  · rfl
  · exact Outcome.announced_bind_eq_nil (r.announced_resolve signature) fun c => rfl

theorem announces_insert (r : Registry) (e : Entry) : (r.insert e).Announces e.symbol := by
  unfold insert
  split
  · exact .fail ..
  · split
    · exact .fail ..
    · exact ⟨fun _ _ => rfl,fun _ h => by cases h⟩

theorem announces_define (r : Registry) (symbol definition : List Char) :
    (r.define symbol definition).Announces symbol := by
  unfold define
  refine .after_silent (r.announced_measure definition) fun ⟨x,c⟩ => ?_
  dsimp only
  split
  · exact .fail ..
  · exact r.announces_insert ⟨symbol,_,_⟩

end Registry

theorem CatalogEntry.announces_apply (r : Registry) (e : CatalogEntry) :
    (e.apply r).Announces e.symbol := by
  unfold apply
  split
  · split
    · exact .fail ..
    · exact r.announces_define ..
  · exact r.announces_insert ⟨e.symbol,_,_⟩
  · exact .fail ..
  · exact .fail ..

namespace Registry

theorem announced_applyAll_cons_of_ok {r s : Registry} {e : CatalogEntry}
    (he : (e.apply r).result = .ok s) (es : List CatalogEntry) :
    (r.applyAll (e::es)).announced = e.symbol::(s.applyAll es).announced := by
  have hresult := (Outcome.result_reportError (.rejected e.symbol) (e.apply r)).trans he
  rw [applyAll_cons,Outcome.announced_bind_ok hresult,Outcome.announced_reportError fun _ => rfl,
    (e.announces_apply r).of_ok s he,List.singleton_append]

theorem announced_applyAll_cons_of_error {r : Registry} {e : CatalogEntry} {fault : RegistryError}
    (he : (e.apply r).result = .error fault) (es : List CatalogEntry) :
    (r.applyAll (e::es)).announced = [] := by
  have hresult := (Outcome.result_reportError (.rejected e.symbol) (e.apply r)).trans he
  rw [applyAll_cons,Outcome.announced_bind_error hresult,
    Outcome.announced_reportError fun _ => rfl,(e.announces_apply r).of_error fault he]

/-- Whatever comes after them, the entries that succeed are reported. -/
theorem Applies.announced_applyAll {r s : Registry} {es : List CatalogEntry} (h : r.Applies es s)
    (rest : List CatalogEntry) :
    (r.applyAll (es ++ rest)).announced =
      es.map CatalogEntry.symbol ++ (s.applyAll rest).announced := by
  induction h with
  | nil => rfl
  | cons he _ ih =>
    rw [List.cons_append,announced_applyAll_cons_of_ok he,ih]
    rfl

theorem announced_load {r : Registry} {text : List Char} {es : List CatalogEntry}
    (hread : Catalog.read text = some es) :
    (r.load text).announced = (r.applyAll es).announced := by
  simp only [load,hread]
  cases h : (r.applyAll es).result with
  | error fault => rw [Outcome.announced_bind_error h]
  | ok s =>
    rw [Outcome.announced_bind_ok h]
    exact List.append_nil _

theorem knows_add (r : Registry) (e : Entry) (symbol : List Char) :
    (r.add e).knows symbol = (decide (e.symbol = symbol) || r.knows symbol) := by
  by_cases h : e.symbol = symbol <;> simp [knows,lookup_add,h]

/-- The new symbols are those that the second registry knows and the first does not. -/
theorem Extends.mem_symbols_iff {r s : Registry} {us : List Entry} (h : r.Extends us s)
    {symbol : List Char} :
    symbol ∈ us.map Entry.symbol ↔ s.knows symbol = true ∧ r.knows symbol = false := by
  induction h with
  | refl => simp
  | @add us s e hs _ hnew ih =>
    rw [List.map_cons,List.mem_cons,ih,knows_add]
    by_cases hsymbol : e.symbol = symbol
    · have hold : r.knows symbol = false := by
        by_contra hknown
        have hknown' := hs.knows_of_knows (Bool.not_eq_false _ ▸ hknown)
        rw [← hsymbol,hnew] at hknown'
        cases hknown'
      simp [hsymbol,hold]
    · simp [hsymbol,Ne.symm hsymbol]

end Registry

namespace Change
open Registry

/-- Some entries of a catalog succeed, and the next one does not. -/
def Discards (c : Change) (r : Registry) (before : List CatalogEntry) : Prop :=
  ∃ text e rest fault, c = .load text ∧ Catalog.read text = some (before ++ e::rest) ∧
    r.FailsAt before e fault

/-- Nothing has changed, but the log tells of units that are not there. -/
theorem Discards.announced {c : Change} {r : Registry} {before : List CatalogEntry}
    (h : c.Discards r before) :
    (c.apply r).announced = before.map CatalogEntry.symbol ∧ c.after r = r ∧
      ∀ f ∈ before, r.knows f.symbol = false := by
  obtain ⟨text,e,rest,fault,rfl,hread,hfail⟩ := h
  have hresult : (r.load text).result = .error fault :=
    (load_eq_error_iff hread).mpr (applyAll_eq_error_iff.mpr ⟨before,e,rest,rfl,hfail⟩)
  obtain ⟨s,hs,he⟩ := hfail
  refine ⟨?_,after_of_error hresult,fun f hf => ?_⟩
  · change (r.load text).announced = _
    rw [announced_load hread,hs.announced_applyAll,announced_applyAll_cons_of_error he,
      List.append_nil]
  · simp [knows,hs.lookup_eq_none hf]

/-- A change that succeeds has announced the units that it has added, in their order. -/
theorem announced_of_ok {r s : Registry} {c : Change} {n : Nat}
    (h : (c.apply r).result = .ok (s,n)) :
    ∃ us, r.Extends us s ∧ (c.apply r).announced = (us.map Entry.symbol).reverse := by
  cases c with
  | insert e =>
    obtain ⟨hs,-⟩ := apply_insert_eq_ok_iff.mp h
    have hannounces := (r.announces_insert e).bind_pure fun s => (s,1)
    exact ⟨[e],extends_of_insert hs,hannounces.of_ok _ h⟩
  | define symbol definition =>
    obtain ⟨hs,-⟩ := apply_define_eq_ok_iff.mp h
    obtain ⟨e,rfl,-,he⟩ := insert_of_define hs
    have hannounces := (r.announces_define e.symbol definition).bind_pure fun s => (s,1)
    exact ⟨[e],extends_of_insert he,hannounces.of_ok _ h⟩
  | load text =>
    obtain ⟨es,hread,hall,-⟩ := load_eq_ok_iff.mp h
    have hs := applyAll_eq_ok_iff.mp hall
    obtain ⟨us,hus,hsymbols⟩ := hs.extends
    refine ⟨us,hus,?_⟩
    have hannounced := hs.announced_applyAll []
    rw [List.append_nil,← announced_load hread] at hannounced
    rw [hsymbols,List.reverse_reverse]
    exact hannounced.trans (List.append_nil _)

/-- A change that fails has announced nothing, unless it had to discard something. -/
theorem announced_of_error {r : Registry} {c : Change} {fault : RegistryError}
    (h : (c.apply r).result = .error fault) :
    (c.apply r).announced = [] ∨ ∃ before, c.Discards r before := by
  cases c with
  | insert e => exact .inl (((r.announces_insert e).bind_pure fun s => (s,1)).of_error fault h)
  | define symbol definition =>
    have hannounces := (r.announces_define symbol definition).bind_pure fun s => (s,1)
    exact .inl (hannounces.of_error fault h)
  | load text =>
    cases hread : Catalog.read text with
    | none =>
      have hfail : r.load text = .fail .malformedCatalog := by simp [Registry.load,hread]
      left
      change (r.load text).announced = []
      rw [hfail]
      rfl
    | some es =>
      have hall := (load_eq_error_iff hread).mp h
      obtain ⟨before,e,rest,rfl,hfail⟩ := applyAll_eq_error_iff.mp hall
      exact .inr ⟨before,text,e,rest,fault,rfl,hread,hfail⟩

/-- After any changes, the next one announces exactly the units that are registered after it and
were not before, unless it is a load that fails after its first entry. Such a load announces all
entries before the failure, and none of them is registered. -/
theorem announced_iff_new_unless_discarded (start : Registry) (cs : List Change) (c : Change) :
    let r := run start cs
    ((∀ symbol, symbol ∈ (c.apply r).announced ↔
        (c.after r).knows symbol = true ∧ r.knows symbol = false) ↔
      ∀ before, c.Discards r before → before = []) ∧
    ∀ before, c.Discards r before →
      (c.apply r).announced = before.map CatalogEntry.symbol ∧
        (∀ symbol, (c.after r).lookup symbol = r.lookup symbol) ∧
        ∀ f ∈ before, (c.after r).knows f.symbol = false := by
  intro r
  refine ⟨⟨fun hall before hdiscards => ?_,fun hnone => ?_⟩,fun before hdiscards => ?_⟩
  · obtain ⟨hannounced,hafter,-⟩ := hdiscards.announced
    have hempty : (c.apply r).announced = [] := by
      refine List.eq_nil_iff_forall_not_mem.mpr fun symbol hmem => ?_
      obtain ⟨hknown,hnew⟩ := (hall symbol).mp hmem
      rw [hafter,hnew] at hknown
      cases hknown
    exact List.map_eq_nil_iff.mp (hannounced.symm.trans hempty)
  · cases h : (c.apply r).result with
    | ok p =>
      obtain ⟨s,n⟩ := p
      obtain ⟨us,hus,hannounced⟩ := announced_of_ok h
      intro symbol
      rw [hannounced,List.mem_reverse,hus.mem_symbols_iff,after_eq_of_apply h]
    | error fault =>
      have hempty : (c.apply r).announced = [] := by
        rcases announced_of_error h with hempty | ⟨before,hdiscards⟩
        · exact hempty
        · rw [hdiscards.announced.1,hnone before hdiscards,List.map_nil]
      intro symbol
      simp [hempty,after_of_error h]
  · obtain ⟨hannounced,hafter,hnew⟩ := hdiscards.announced
    rw [hafter]
    exact ⟨hannounced,fun _ => rfl,hnew⟩

/-- The rod comes after another unit, which is not announced again. -/
theorem announced_rod_after_furlong :
    let r := run .builtin [.define "furlong".toList "201.168 m".toList]
    let c : Change := .define "rod".toList "0.025 furlong".toList
    (c.after r).knows "rod".toList = true ∧
      ∀ symbol, symbol ∈ (c.apply r).announced ↔
        (c.after r).knows symbol = true ∧ r.knows symbol = false := by
  intro r c
  have hnone : ∀ before, c.Discards r before → before = [] := by
    rintro before ⟨_,_,_,_,hload,-⟩
    simp only [c,reduceCtorEq] at hload
  have h := announced_iff_new_unless_discarded .builtin
    [.define "furlong".toList "201.168 m".toList] c
  exact ⟨by decide +kernel,h.1.mpr hnone⟩

/-- The log tells of the first furlong, and the second one is in its way. -/
theorem announced_furlong_not_registered :
    let text := "[[unit]]\nsymbol = 'furlong'\nfactor = 200.0\ndimension = [1, 0, 0, 0, 0]\n
      [[unit]]\nsymbol = 'furlong'\nfactor = 201.0\ndimension = [1, 0, 0, 0, 0]\n".toList
    let c : Change := .load text
    (c.apply .builtin).announced = ["furlong".toList] ∧
      (c.after .builtin).knows "furlong".toList = false ∧
      ¬∀ symbol, symbol ∈ (c.apply .builtin).announced ↔
        (c.after .builtin).knows symbol = true ∧ Registry.builtin.knows symbol = false := by
  intro text c
  let first : CatalogEntry := ⟨"furlong".toList,none,some 200.0,none,some .length⟩
  let second : CatalogEntry := ⟨"furlong".toList,none,some 201.0,none,some .length⟩
  have hread : Catalog.read text = some [first,second] := by decide +kernel
  obtain ⟨s,hs⟩ : ∃ s, (first.apply .builtin).result = .ok s :=
    Outcome.exists_eq_ok (by decide +kernel)
  have hclash : (second.apply s).result = .error (.duplicateSymbol "furlong".toList) := by
    obtain ⟨u,hu,-,hins⟩ := CatalogEntry.insert_of_apply hs
    have hknown : s.knows first.symbol = true := hu ▸ knows_of_insert hins
    exact insert_of_knows (e := ⟨_,.length,.scale 201.0⟩) (by decide +kernel) hknown
  have hfail : Registry.builtin.FailsAt [first] second (.duplicateSymbol "furlong".toList) :=
    ⟨s,.cons hs (.nil s),hclash⟩
  have hdiscards : c.Discards .builtin [first] := ⟨text,second,[],_,rfl,hread,hfail⟩
  obtain ⟨hannounced,hafter,hnew⟩ := hdiscards.announced
  have hunknown : (c.after .builtin).knows "furlong".toList = false := by
    rw [hafter]
    exact hnew first (by simp)
  refine ⟨hannounced,hunknown,fun hall => ?_⟩
  have hknown := ((hall "furlong".toList).mp (by simp [hannounced,first])).1
  rw [hunknown] at hknown
  cases hknown

end Change
end Mensura
