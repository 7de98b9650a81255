import Mensura.Proofs.Measurement.Split
import Mensura.Proofs.Numeric.Exact
import Mensura.Proofs.Registry.Soundness
import Mensura.Proofs.Signature.Term

/-! Units under their own names. A symbol that has no fault is a single word, but the end of a word
is read as an exponent before the word is looked up, if it is made of superscripts. Units with such
symbols can be registered, and are not found. -/
namespace Mensura

theorem isSeparator_eq_false_iff {c : Char} :
    isSeparator c = false ↔ Signature.isWordChar c = true ∧ c ≠ '^' := by
  simp only [isSeparator,Signature.isWordChar,Signature.isOperator,Bool.or_eq_false_iff,
    Bool.and_eq_true,Bool.not_eq_true',decide_eq_false_iff_not]
  tauto

/-- A symbol without a fault is a single word, and nothing in it marks an exponent. -/
theorem Entry.isWord_of_symbolFault? {s : List Char} (h : symbolFault? s = none) :
    s ≠ [] ∧ (∀ c ∈ s, Signature.isWordChar c = true) ∧ '^' ∉ s := by
  cases s with
  | nil => simp [symbolFault?] at h
  | cons c s =>
    have hsep : ∀ x ∈ c::s, isSeparator x = false := by
      simp only [symbolFault?] at h
      split_ifs at h with _ hany
      simpa using hany
    refine ⟨List.cons_ne_nil c s,fun x hx => ?_,fun hx => ?_⟩
    · exact (isSeparator_eq_false_iff.mp (hsep x hx)).1
    · exact (isSeparator_eq_false_iff.mp (hsep '^' hx)).2 rfl

namespace Registry

/-- What successful changes make of the empty or of the built-in registry. -/
inductive Reachable : Registry → Prop
  | empty : Reachable .empty
  | builtin : Reachable .builtin
  | change {r s : Registry} {c : Change} {n : Nat} (h : Reachable r) (hc : c.Representable)
      (hs : (c.apply r).result = .ok (s,n)) : Reachable s

theorem Reachable.sound {r : Registry} (h : r.Reachable) : r.Sound := by
  induction h with
  | empty => exact sound_empty
  | builtin => exact sound_builtin
  | change _ _ hs ih =>
    obtain ⟨us,hus,-⟩ := Change.extends_of_apply hs
    exact ih.extends hus

theorem representable_builtin : ∀ e ∈ builtin.entries, e.Representable := by
  have h : builtin.entries.all (fun e => decide e.Representable) = true := by decide +kernel
  intro e he
  simpa using List.all_eq_true.mp h e he

theorem Reachable.representable {r : Registry} (h : r.Reachable) :
    ∀ e ∈ r.entries, e.Representable := by
  induction h with
  | empty => simp [Registry.empty]
  | builtin => exact representable_builtin
  | change _ hc hs ih =>
    obtain ⟨us,hus,-,hrep⟩ := Change.extends_of_apply hs
    intro e he
    rcases hus.mem_entries he with he | he
    · exact hrep hc e he
    · exact ih e he

/-- A unit is the product of itself alone. -/
theorem yields_symbol {r : Registry} {s : List Char} {e : Entry} (he : r.lookup s = some e)
    (hfit : e.fault? = none) (hrep : e.Representable) :
    r.Yields [⟨s,1⟩] ⟨e.dimension,e.conversion⟩ := by
  cases hc : e.conversion with
  | affine offset factor =>
    rw [← hc]
    exact .offset he (by rw [hc]; rfl)
  | scale factor =>
    have ha : e.conversion.isAffine = false := by rw [hc]; rfl
    have hdim : UnitPower.totalDimension [⟨e,1⟩] = e.dimension := by
      simp [UnitPower.dimension]
    have hfactor : UnitPower.totalFactor [⟨e,1⟩] = factor := by
      simp [UnitPower.totalFactor,UnitPower.factor,hc,Conversion.factor]
    have hfits : e.dimension.Fits := hrep
    have hrange : UnitPower.StaysInRange [⟨e,1⟩] := by
      constructor
      · simpa [UnitPower.dimension] using hfits
      · intro k
        cases k with
        | zero => exact Dimension.fits_dimensionless
        | succ k => simpa [hdim] using hfits
    have husable : isUsable factor = true := by
      simpa [hc,Conversion.factor] using Entry.isUsable_of_fault? hfit
    have hscaled : r.IsScaled ⟨s,1⟩ ⟨e,1⟩ := ⟨he,ha,rfl⟩
    have hy := Yields.product (.cons hscaled .nil) hrange (by rwa [hfactor])
    rwa [hdim,hfactor] at hy

/-- A symbol is read as a single term. -/
theorem read_symbol_eq_ok_iff {known : List Char → Bool} {s : List Char}
    (hs : Entry.symbolFault? s = none) {ts : List Signature.Term} :
    Signature.read known s = .ok ts ↔ ∃ t, Signature.readTerm known s = .ok t ∧ ts = [t] := by
  obtain ⟨hne,hword,-⟩ := Entry.isWord_of_symbolFault? hs
  rw [Signature.read_word hne hword]
  cases Signature.readTerm known s with
  | error fault => simp [Except.map]
  | ok t => simp [Except.map,eq_comm]

theorem read_symbol_iff {known : List Char → Bool} {s : List Char}
    (hs : Entry.symbolFault? s = none) (hknown : known s = true) :
    Signature.read known s = .ok [⟨s,1⟩] ↔ Text.endsIn Text.isSuperscript s = false := by
  obtain ⟨hne,-,hcaret⟩ := Entry.isWord_of_symbolFault? hs
  rw [read_symbol_eq_ok_iff hs]
  constructor
  · rintro ⟨t,ht,hts⟩
    obtain rfl := (List.singleton_inj.mp hts).symm
    cases hend : Text.endsIn Text.isSuperscript s with
    | false => rfl
    | true =>
      have hsymbol := Signature.symbol_ne_of_readTerm hcaret hend ht
      exact absurd rfl hsymbol
  · intro hend
    exact ⟨_,Signature.readTerm_of_known hne hknown hcaret hend,rfl⟩

theorem resolve_symbol {r : Registry} (hr : r.Reachable) {s : List Char} {e : Entry}
    (he : r.lookup s = some e) (hend : Text.endsIn Text.isSuperscript s = false) :
    (r.resolve s).result = .ok ⟨e.dimension,e.conversion⟩ := by
  have hmem := mem_entries_of_lookup he
  have hfit := hr.sound.fault?_eq_none e hmem
  have hs : Entry.symbolFault? s = none := by
    rw [← symbol_of_lookup he]
    exact ((Entry.fault?_eq_none_iff e).mp hfit).1
  have hread := (read_symbol_iff hs (knows_of_lookup he)).mpr hend
  exact resolve_eq_ok_iff.mpr ⟨_,hread,yields_symbol he hfit (hr.representable e hmem)⟩

theorem Reachable.add {r : Registry} (hr : r.Reachable) {e : Entry} (hfit : e.fault? = none)
    (hrep : e.Representable) (hnew : r.knows e.symbol = false) : (r.add e).Reachable :=
  .change (c := .insert e) hr hrep
    (Change.apply_insert_eq_ok_iff.mpr ⟨insert_eq_ok_iff.mpr ⟨hfit,hnew,rfl⟩,rfl⟩)

theorem reachable_singleton {e : Entry} (hfit : e.fault? = none) (hrep : e.Representable) :
    (Registry.empty.add e).Reachable :=
  Reachable.empty.add hfit hrep rfl

theorem Yields.knows_head {r : Registry} {t : Signature.Term} {ts : List Signature.Term}
    {c : Resolution} (h : r.Yields (t::ts) c) : r.knows t.symbol = true := by
  cases h with
  | offset he _ => exact knows_of_lookup he
  | product hus _ _ =>
    obtain ⟨u,_,hu,_,_⟩ := List.forall₂_cons_left_iff.mp hus
    exact knows_of_lookup hu.1

/-- Where nothing else is known, a symbol stands for something only if it is read as itself. -/
theorem endsIn_eq_false_of_resolve {e : Entry} (hs : Entry.symbolFault? e.symbol = none)
    {c : Resolution} (h : ((Registry.empty.add e).resolve e.symbol).result = .ok c) :
    Text.endsIn Text.isSuperscript e.symbol = false := by
  obtain ⟨ts,hread,hy⟩ := resolve_eq_ok_iff.mp h
  obtain ⟨t,ht,rfl⟩ := (read_symbol_eq_ok_iff hs).mp hread
  have hsymbol : e.symbol = t.symbol := by
    by_contra hne
    have hknows := hy.knows_head
    rw [knows,lookup_add,if_neg hne] at hknows
    simp [lookup,Registry.empty] at hknows
  obtain ⟨-,-,hcaret⟩ := Entry.isWord_of_symbolFault? hs
  cases hend : Text.endsIn Text.isSuperscript e.symbol with
  | false => rfl
  | true => exact absurd hsymbol.symm (Signature.symbol_ne_of_readTerm hcaret hend ht)

/-- Every unit is found under its own name, unless the name ends in a superscript. Such names are
never read as themselves, even where they are known. -/
theorem resolves_own_name_iff {s : List Char} (hs : Entry.symbolFault? s = none) :
    ((∀ r : Registry, r.Reachable → ∀ e, r.lookup s = some e →
        (r.resolve s).result = .ok ⟨e.dimension,e.conversion⟩) ↔
      Text.endsIn Text.isSuperscript s = false) ∧
    ∀ known : List Char → Bool, known s = true →
      (Signature.read known s = .ok [⟨s,1⟩] ↔ Text.endsIn Text.isSuperscript s = false) := by
  refine ⟨⟨fun h => ?_,fun hend r hr e he => resolve_symbol hr he hend⟩,
    fun _ hknown => read_symbol_iff hs hknown⟩
  have hfit : (⟨s,.dimensionless,.identity⟩ : Entry).fault? = none := by
    have hc : Entry.conversionFault? .identity = none := by decide +kernel
    exact (Entry.fault?_eq_none_iff _).mpr ⟨hs,hc⟩
  have hr := reachable_singleton hfit Dimension.fits_dimensionless
  have hlookup : (Registry.empty.add ⟨s,.dimensionless,.identity⟩).lookup s =
      some ⟨s,.dimensionless,.identity⟩ := by
    rw [lookup_add]
    exact if_pos rfl
  exact endsIn_eq_false_of_resolve hs (h _ hr _ hlookup)

theorem resolves_own_name_of_digit :
    Entry.symbolFault? "m2".toList = none ∧
      (∀ r : Registry, r.Reachable → ∀ e, r.lookup "m2".toList = some e →
        (r.resolve "m2".toList).result = .ok ⟨e.dimension,e.conversion⟩) ∧
      Entry.symbolFault? "q²".toList = none ∧
      ¬ ∀ r : Registry, r.Reachable → ∀ e, r.lookup "q²".toList = some e →
        (r.resolve "q²".toList).result = .ok ⟨e.dimension,e.conversion⟩ :=
  ⟨by decide,(resolves_own_name_iff (by decide)).1.mpr (by decide),by decide,
    fun h => absurd ((resolves_own_name_iff (by decide)).1.mp h) (by decide)⟩

/-- A symbol that is accepted, and unknown as soon as it is. -/
theorem own_name_lost :
    let e : Entry := ⟨"q²".toList,⟨2,0,0,0,0⟩,.scale (Scalar.ofInt 9)⟩
    (Registry.empty.insert e).result = .ok (Registry.empty.add e) ∧
      (Registry.empty.add e).Reachable ∧
      (Registry.empty.add e).lookup "q²".toList = some e ∧
      ((Registry.empty.add e).resolve "q²".toList).result = .error (.unknownUnit "q".toList) := by
  intro e
  have hfit : e.fault? = none := by decide +kernel
  exact ⟨insert_eq_ok_iff.mpr ⟨hfit,rfl,rfl⟩,reachable_singleton hfit (by decide),rfl,rfl⟩

/-! The built-in units. Each can be used as a suffix of a number, as a unit of its dimension and,
under its symbol and its aliases, in a text; it makes the same quantity of the same number. -/

/-- Aliases leave alone what is not one of them. -/
theorem lookup_addAlias_of_ne (r : Registry) {name symbol : String} {s : List Char}
    (h : name.toList ≠ s) : (r.addAlias name symbol).lookup s = r.lookup s := by
  unfold addAlias
  split
  · rw [lookup_add]
    exact if_neg h
  · rfl

theorem lookup_addAlias {r : Registry} {name symbol : String} {e : Entry}
    (h : r.lookup symbol.toList = some e) :
    (r.addAlias name symbol).lookup name.toList = some {e with symbol := name.toList} := by
  simp [addAlias,h,lookup_add]

theorem lookup_addAliases_of_not_mem {as : List (String × String)} {s : List Char}
    (h : ∀ a ∈ as, a.1.toList ≠ s) (r : Registry) :
    (as.foldl (fun r a => r.addAlias a.1 a.2) r).lookup s = r.lookup s := by
  induction as generalizing r with
  | nil => rfl
  | cons a as ih =>
    obtain ⟨ha,has⟩ := List.forall_mem_cons.mp h
    rw [List.foldl_cons,ih has,lookup_addAlias_of_ne r ha]

/-- An alias stands for what its symbol stood for, if no symbol is an alias and no alias is given
twice. -/
theorem lookup_addAliases {as : List (String × String)} (hnodup : (as.map Prod.fst).Nodup)
    {name symbol : String} (hmem : (name,symbol) ∈ as) (hsymbol : symbol ∉ as.map Prod.fst)
    {r : Registry} {e : Entry} (he : r.lookup symbol.toList = some e) :
    (as.foldl (fun r a => r.addAlias a.1 a.2) r).lookup name.toList =
      some {e with symbol := name.toList} := by
  induction as generalizing r with
  | nil => cases hmem
  | cons a as ih =>
    obtain ⟨hnew,hnodup⟩ := List.nodup_cons.mp hnodup
    rw [List.foldl_cons]
    rcases List.mem_cons.mp hmem with rfl | hmem
    · have hother : ∀ a ∈ as, a.1.toList ≠ name.toList := by
        intro a ha heq
        exact hnew (List.mem_map.mpr ⟨a,ha,String.toList_inj.mp heq⟩)
      rw [lookup_addAliases_of_not_mem hother,lookup_addAlias he]
    · have hne : a.1.toList ≠ symbol.toList := by
        intro heq
        rw [List.map_cons,String.toList_inj.mp heq] at hsymbol
        exact hsymbol List.mem_cons_self
      have hrest : symbol ∉ as.map Prod.fst := fun h => hsymbol (List.mem_cons_of_mem _ h)
      exact ih hnodup hmem hrest ((lookup_addAlias_of_ne r hne).trans he)

theorem lookup_rows {row : Row} (h : row ∈ rows) :
    (ofRows rows).lookup row.symbol.toList = some row.entry :=
  lookup_symbol_of_nodup (by decide +kernel) row.entry (List.mem_map_of_mem h)

/-- Neither symbols nor the targets of aliases are aliases themselves. -/
theorem symbol_ne_alias : ∀ row ∈ rows, row.symbol ∉ aliases.map Prod.fst := by
  have hall : rows.all (fun row => decide (row.symbol ∉ aliases.map Prod.fst)) = true := by
    decide +kernel
  intro row hrow
  simpa using List.all_eq_true.mp hall row hrow

/-- A unit in a text: under its symbol, or an alias of it. -/
inductive Spells (row : Row) : List Char → Prop
  | symbol : Spells row row.symbol.toList
  | synonym {name : String} (h : (name,row.symbol) ∈ aliases) : Spells row name.toList

theorem lookup_of_spells {row : Row} (hrow : row ∈ rows) {s : List Char} (hs : Spells row s) :
    builtin.lookup s = some {row.entry with symbol := s} := by
  have hlookup := lookup_rows hrow
  have hsymbol := symbol_ne_alias row hrow
  cases hs with
  | symbol =>
    have hother : ∀ a ∈ aliases, a.1.toList ≠ row.symbol.toList := by
      intro a ha heq
      exact hsymbol (List.mem_map.mpr ⟨a,ha,String.toList_inj.mp heq⟩)
    exact (lookup_addAliases_of_not_mem hother (ofRows rows)).trans hlookup
  | synonym h => exact lookup_addAliases (by decide +kernel) h hsymbol hlookup

/-- No built-in name ends in what would be read as an exponent before it is looked up. -/
theorem endsIn_builtin {s : List Char} {e : Entry} (h : builtin.lookup s = some e) :
    Text.endsIn Text.isSuperscript s = false := by
  have hall : builtin.entries.all (fun e => !Text.endsIn Text.isSuperscript e.symbol) = true := by
    decide +kernel
  rw [← symbol_of_lookup h]
  simpa using List.all_eq_true.mp hall e (mem_entries_of_lookup h)

theorem isTrimmed_of_lookup {r : Registry} (hr : r.Sound) {s : List Char} {e : Entry}
    (h : r.lookup s = some e) : Text.IsTrimmed s ∧ s ≠ [] := by
  have hfit := hr.fault?_eq_none e (mem_entries_of_lookup h)
  have hsymbol := ((Entry.fault?_eq_none_iff e).mp hfit).1
  rw [symbol_of_lookup h] at hsymbol
  obtain ⟨hne,hword,-⟩ := Entry.isWord_of_symbolFault? hsymbol
  refine ⟨Text.isTrimmed_of_forall fun c hc => ?_,hne⟩
  have hc := hword c hc
  simp only [Signature.isWordChar,Bool.and_eq_true,Bool.not_eq_true'] at hc
  exact hc.1

theorem literal?_symbol {row : Row} (hrow : row ∈ rows) (x : Float) :
    literal? row.symbol x = some ⟨row.dimension,row.unit.of #v[x]⟩ := by
  have hlookup := lookup_rows hrow
  simp only [lookup,ofRows,List.find?_map,Option.map_eq_some_iff] at hlookup
  obtain ⟨found,hfind,hentry⟩ := hlookup
  have hfound : rows.find? (·.symbol == row.symbol) = some found := by
    rw [← hfind]
    congr
    funext other
    simp [Row.entry,String.toList_inj]
  rw [literal?,hfound,Option.map_some]
  have hquantity := congrArg
    (fun e : Entry => (⟨e.dimension,(⟨e.conversion⟩ : UnitOf e.dimension).of #v[x]⟩ :
      (d : Dimension) × Quantity d 1 Float)) hentry
  exact congrArg some hquantity

/-- A built-in unit makes the same of a number as a suffix, as a unit of its dimension, and in a
text after it. -/
theorem routes_agree {d : Dimension} {u : UnitOf d} {name symbol : String}
    (hrow : row name symbol u ∈ rows) {s : List Char} (hs : Spells (row name symbol u) s)
    {text : List Char} {x : Float} (hx : Measurement.split text = .ok (x,[])) :
    literal? symbol x = some ⟨d,u.of #v[x]⟩ ∧
      (builtin.read d (text ++ ' '::s)).result = .ok (u.of #v[x]) := by
  have hlookup := lookup_of_spells hrow hs
  obtain ⟨htrimmed,hne⟩ := isTrimmed_of_lookup sound_builtin hlookup
  have hresolve : (builtin.resolve s).result = .ok ⟨d,u.conversion⟩ :=
    resolve_symbol .builtin hlookup (endsIn_builtin hlookup)
  have hsplit := Measurement.split_append_of_split hx htrimmed hne
  have hmeasure : (builtin.measure (text ++ ' '::s)).result = .ok (x,⟨d,u.conversion⟩) :=
    measure_eq_ok_iff.mpr ⟨s,hsplit,.inr (resolve_eq_ok_iff.mp hresolve)⟩
  have hquantity : u.of #v[x] = .ofScalar (Scalar.ofFloat (u.conversion.toBase x)) := by
    simp [UnitOf.of,Quantity.ofScalar]
  exact ⟨literal?_symbol hrow x,read_eq_ok_iff.mpr ⟨x,_,hmeasure,rfl,hquantity⟩⟩

theorem routes_agree_celsius :
    let text := "-1_000.5e-2".toList
    ∃ x, Measurement.split text = .ok (x,[]) ∧
      literal? "degC" x = some ⟨.temperature,CommonUnit.celsius.of #v[x]⟩ ∧
      (builtin.read .temperature (text ++ ' '::"°C".toList)).result =
        .ok (CommonUnit.celsius.of #v[x]) := by
  intro text
  obtain ⟨x,hsplit⟩ : ∃ x, Measurement.split text = .ok (x,[]) := ⟨_,rfl⟩
  have hrow : row "celsius" "degC" CommonUnit.celsius ∈ rows :=
    List.mem_of_getElem? (i := 36) rfl
  have halias : ("°C",(row "celsius" "degC" CommonUnit.celsius).symbol) ∈ aliases := by decide
  exact ⟨x,hsplit,routes_agree hrow (.synonym halias) hsplit⟩

end Registry
end Mensura
