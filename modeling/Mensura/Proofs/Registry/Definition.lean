import Mensura.Proofs.Catalog.Order
import Mensura.Proofs.Signature.Denotation

/-! Definitions are transparent. A unit that has been defined stands for the terms of its
definition: a signature keeps its exponents if these terms take the place of the unit. One
definition after the other, from the latest to the first, every unit is reduced in this way to units
that have not been defined. -/
namespace Mensura
open Signature (Term)

namespace Signature

/-- A power of a term is the term with another power. -/
def Term.pow (t : Term) (n : Int) : Term := {t with power := t.power * n}

@[simp] theorem Term.pow_symbol (t : Term) (n : Int) : (t.pow n).symbol = t.symbol := rfl
@[simp] theorem Term.pow_power (t : Term) (n : Int) : (t.pow n).power = t.power * n := rfl

end Signature

/-- A symbol and the terms that it has been defined by. -/
structure Definition where
  symbol : List Char
  terms : List Term

namespace Definition

/-- The terms of the definition, raised to the power of the unit, take its place. -/
def unfold (δ : Definition) (ts : List Term) : List Term :=
  ts.flatMap fun t => if t.symbol = δ.symbol then δ.terms.map (·.pow t.power) else [t]

/-- The first of the definitions is unfolded first. -/
def unfoldAll (ds : List Definition) (ts : List Term) : List Term :=
  ds.foldl (fun ts δ => δ.unfold ts) ts

variable {δ : Definition} {ds : List Definition} {t : Term} {ts : List Term}

theorem unfold_cons_of_eq (h : t.symbol = δ.symbol) :
    δ.unfold (t::ts) = δ.terms.map (·.pow t.power) ++ δ.unfold ts := by
  simp [unfold,h]

theorem unfold_cons_of_ne (h : t.symbol ≠ δ.symbol) : δ.unfold (t::ts) = t::δ.unfold ts := by
  simp [unfold,h]

/-- A symbol in the result is another one of before, or one of the definition. -/
theorem mem_unfold (h : t ∈ δ.unfold ts) :
    (t ∈ ts ∧ t.symbol ≠ δ.symbol) ∨ ∃ u ∈ δ.terms, u.symbol = t.symbol := by
  obtain ⟨u,hu,ht⟩ := List.mem_flatMap.mp h
  split at ht
  · obtain ⟨v,hv,rfl⟩ := List.mem_map.mp ht
    exact .inr ⟨v,hv,rfl⟩
  · rename_i hne
    obtain rfl := List.mem_singleton.mp ht
    exact .inl ⟨hu,hne⟩

theorem forall_unfold {P : List Char → Prop} (hδ : ∀ t ∈ δ.terms, P t.symbol)
    (hts : ∀ t ∈ ts, P t.symbol) : ∀ t ∈ δ.unfold ts, P t.symbol := by
  intro t ht
  rcases mem_unfold ht with ⟨ht,-⟩ | ⟨u,hu,hsymbol⟩
  · exact hts t ht
  · exact hsymbol ▸ hδ u hu

theorem forall_unfoldAll {P : List Char → Prop} (hds : ∀ δ ∈ ds, ∀ t ∈ δ.terms, P t.symbol)
    (hts : ∀ t ∈ ts, P t.symbol) : ∀ t ∈ unfoldAll ds ts, P t.symbol := by
  induction ds generalizing ts with
  | nil => exact hts
  | cons δ ds ih =>
    obtain ⟨hδ,hds⟩ := List.forall_mem_cons.mp hds
    exact ih hds (forall_unfold hδ hts)

end Definition

namespace Registry
variable {r s : Registry} {ts us : List Term} {δ : Definition} {ds : List Definition}

def unitDimension (r : Registry) (symbol : List Char) : Dimension :=
  ((r.lookup symbol).map Entry.dimension).getD .dimensionless

/-- The product of the powers, with exponents that are not bounded. -/
def dimensionOf (r : Registry) (ts : List Term) : Dimension :=
  (ts.map fun t => (r.unitDimension t.symbol).pow t.power).prod

theorem unitDimension_of_lookup {symbol : List Char} {e : Entry}
    (h : r.lookup symbol = some e) : r.unitDimension symbol = e.dimension := by
  simp [unitDimension,h]

@[simp] theorem dimensionOf_nil : r.dimensionOf [] = .dimensionless := rfl
@[simp] theorem dimensionOf_cons (t : Term) : r.dimensionOf (t::ts) =
    (r.unitDimension t.symbol).pow t.power * r.dimensionOf ts := List.prod_cons
@[simp] theorem dimensionOf_append :
    r.dimensionOf (ts ++ us) = r.dimensionOf ts * r.dimensionOf us := by
  simp [dimensionOf]

theorem dimensionOf_map_pow (n : Int) :
    r.dimensionOf (ts.map (·.pow n)) = (r.dimensionOf ts).pow n := by
  induction ts with
  | nil => exact (one_zpow n).symm
  | cons t ts ih =>
    rw [List.map_cons,dimensionOf_cons,ih,dimensionOf_cons,Dimension.mul_pow,← Dimension.pow_mul,
      Term.pow_symbol,Term.pow_power]

/-- Unfolding keeps the exponents if they are right for the unit by itself. -/
theorem dimensionOf_unfold (h : r.unitDimension δ.symbol = r.dimensionOf δ.terms)
    (ts : List Term) : r.dimensionOf (δ.unfold ts) = r.dimensionOf ts := by
  induction ts with
  | nil => rfl
  | cons t ts ih =>
    by_cases ht : t.symbol = δ.symbol
    · rw [Definition.unfold_cons_of_eq ht,dimensionOf_append,dimensionOf_map_pow,ih,
        dimensionOf_cons,ht,h]
    · rw [Definition.unfold_cons_of_ne ht,dimensionOf_cons,ih,dimensionOf_cons]

/-- Every unit of the terms is registered. -/
def KnowsAll (r : Registry) (ts : List Term) : Prop := ∀ t ∈ ts, r.knows t.symbol = true

theorem Extends.unitDimension_eq {es : List Entry} (h : r.Extends es s) {symbol : List Char}
    (hknown : r.knows symbol = true) : s.unitDimension symbol = r.unitDimension symbol := by
  obtain ⟨e,he⟩ := Option.isSome_iff_exists.mp hknown
  rw [unitDimension_of_lookup he,unitDimension_of_lookup (h.lookup_eq he)]

theorem Extends.dimensionOf_eq {es : List Entry} (h : r.Extends es s) (hts : r.KnowsAll ts) :
    s.dimensionOf ts = r.dimensionOf ts := by
  unfold dimensionOf
  congr 1
  refine List.map_congr_left fun t ht => ?_
  rw [h.unitDimension_eq (hts t ht)]

theorem Extends.knowsAll {es : List Entry} (h : r.Extends es s) (hts : r.KnowsAll ts) :
    s.KnowsAll ts := fun t ht => h.knows_of_knows (hts t ht)

theorem dimension_of_areScaled {vs : List UnitPower} (h : List.Forall₂ r.IsScaled ts vs) :
    UnitPower.totalDimension vs = r.dimensionOf ts := by
  induction h with
  | nil => rfl
  | cons hu _ ih =>
    obtain ⟨hlookup,-,hpower⟩ := hu
    rw [UnitPower.totalDimension_cons,ih,dimensionOf_cons,unitDimension_of_lookup hlookup,
      ← hpower]
    rfl

/-- Resolving gives the exponents of the terms, be it of a product or of a unit with an offset. -/
theorem Yields.dimension_eq {c : Resolution} (h : r.Yields ts c) :
    c.dimension = r.dimensionOf ts := by
  cases h with
  | offset he _ => simp [unitDimension_of_lookup he]
  | product hus _ _ => exact dimension_of_areScaled hus

/-- All units are registered, and if the product has no offset, none of them has one. -/
theorem Yields.isScaled {c : Resolution} (h : r.Yields ts c)
    (hc : c.conversion.isAffine = false) :
    ∀ t ∈ ts, ∃ e, r.lookup t.symbol = some e ∧ e.conversion.isAffine = false := by
  cases h with
  | offset _ ha => simp [ha] at hc
  | product hus _ _ =>
    intro t ht
    obtain ⟨u,hlookup,ha,-⟩ := Signature.exists_forall₂_iff.mp ⟨_,hus⟩ t ht
    exact ⟨u.unit,hlookup,ha⟩

/-- The unit of a definition and its terms; no unit at all is the identity, of no terms. -/
def MeansTerms (r : Registry) (signature : List Char) (c : Resolution) (ts : List Term) : Prop :=
  (signature = [] ∧ c = .identity ∧ ts = []) ∨
    ((r.resolve signature).result = .ok c ∧ Signature.read r.knows signature = .ok ts)

theorem Means.exists_terms {signature : List Char} {c : Resolution} (h : r.Means signature c) :
    ∃ ts, r.MeansTerms signature c ts := by
  rcases h with ⟨hnil,hc⟩ | ⟨ts,hread,hc⟩
  · exact ⟨[],.inl ⟨hnil,hc,rfl⟩⟩
  · exact ⟨ts,.inr ⟨resolve_eq_ok_iff.mpr ⟨ts,hread,hc⟩,hread⟩⟩

theorem yields_of_resolve {signature : List Char} {c : Resolution}
    (h : (r.resolve signature).result = .ok c) (hread : Signature.read r.knows signature = .ok ts) :
    r.Yields ts c := by
  obtain ⟨ts',hread',hc⟩ := resolve_eq_ok_iff.mp h
  obtain rfl := Except.ok.inj (hread.symm.trans hread')
  exact hc

theorem MeansTerms.dimension_eq {signature : List Char} {c : Resolution}
    (h : r.MeansTerms signature c ts) : c.dimension = r.dimensionOf ts := by
  rcases h with ⟨-,rfl,rfl⟩ | ⟨hc,hread⟩
  · rfl
  · exact (yields_of_resolve hc hread).dimension_eq

theorem MeansTerms.isScaled {signature : List Char} {c : Resolution} {f : Float}
    (h : r.MeansTerms signature c ts) (hscale : c.conversion = .scale f) :
    ∀ t ∈ ts, ∃ e, r.lookup t.symbol = some e ∧ e.conversion.isAffine = false := by
  have ha : c.conversion.isAffine = false := by
    rw [hscale]
    rfl
  rcases h with ⟨-,-,rfl⟩ | ⟨hc,hread⟩
  · simp
  · exact (yields_of_resolve hc hread).isScaled ha

/-- The unit of the definition has been registered, and these are the terms it was defined by. -/
def Defines (r : Registry) (δ : Definition) (s : Registry) : Prop :=
  ∃ text x signature c, (r.define δ.symbol text).result = .ok s ∧
    Measurement.split text = .ok (x,signature) ∧ r.MeansTerms signature c δ.terms

end Registry

/-- The unit and those it is defined by are registered and have the right dimensions, and the
definition is not circular. -/
structure Definition.HoldsIn (δ : Definition) (r : Registry) : Prop where
  knows : r.knows δ.symbol = true
  knowsAll : r.KnowsAll δ.terms
  symbol_ne : ∀ t ∈ δ.terms, t.symbol ≠ δ.symbol
  dimension_eq : r.unitDimension δ.symbol = r.dimensionOf δ.terms

theorem Definition.HoldsIn.extends {δ : Definition} {r s : Registry} {es : List Entry}
    (h : δ.HoldsIn r) (hs : r.Extends es s) : δ.HoldsIn s where
  knows := hs.knows_of_knows h.knows
  knowsAll := hs.knowsAll h.knowsAll
  symbol_ne := h.symbol_ne
  dimension_eq := by
    rw [hs.unitDimension_eq h.knows,hs.dimensionOf_eq h.knowsAll,h.dimension_eq]

namespace Registry
variable {r s t : Registry} {ts us : List Term} {δ : Definition} {ds : List Definition}

theorem MeansTerms.unique {signature : List Char} {c d : Resolution}
    (h : r.MeansTerms signature c ts) (h' : r.MeansTerms signature d us) : c = d ∧ ts = us := by
  rcases h with ⟨rfl,rfl,rfl⟩ | ⟨hc,hread⟩
  · rcases h' with ⟨-,rfl,rfl⟩ | ⟨-,hread'⟩
    · exact ⟨rfl,rfl⟩
    · exact absurd rfl (ne_nil_of_read hread')
  · rcases h' with ⟨rfl,-,-⟩ | ⟨hd,hread'⟩
    · exact absurd rfl (ne_nil_of_read hread)
    · exact ⟨Except.ok.inj (hc.symm.trans hd),Except.ok.inj (hread.symm.trans hread')⟩

/-- The new unit has the dimension of the terms, and none of them is the new unit. -/
theorem MeansTerms.holdsIn {signature symbol : List Char} {c : Resolution} {f : Float}
    {k : Conversion} (h : r.MeansTerms signature c ts) (hscale : c.conversion = .scale f)
    (hs : r.Extends [⟨symbol,c.dimension,k⟩] s) (hnew : r.knows symbol = false)
    (hlookup : s.lookup symbol = some ⟨symbol,c.dimension,k⟩) :
    (⟨symbol,ts⟩ : Definition).HoldsIn s := by
  have hts : r.KnowsAll ts := fun t ht => by
    obtain ⟨e,he,-⟩ := h.isScaled hscale t ht
    exact knows_of_lookup he
  refine ⟨knows_of_lookup hlookup,hs.knowsAll hts,?_,?_⟩
  · rintro t ht rfl
    rw [hts t ht] at hnew
    cases hnew
  · rw [unitDimension_of_lookup hlookup,hs.dimensionOf_eq hts,← h.dimension_eq]

/-- All that a definition does. -/
theorem define_spec {symbol text : List Char} (h : (r.define symbol text).result = .ok s) :
    ∃ x signature c ts f, Measurement.split text = .ok (x,signature) ∧
      r.MeansTerms signature c ts ∧ c.conversion = .scale f ∧ r.knows symbol = false ∧
      r.Extends [⟨symbol,c.dimension,.scale (x * f)⟩] s ∧
      s.lookup symbol = some ⟨symbol,c.dimension,.scale (x * f)⟩ := by
  obtain ⟨x,⟨d,conversion⟩,hm,ha,hins⟩ := define_eq_ok_iff.mp h
  obtain ⟨signature,hsplit,hc⟩ := measure_eq_ok_iff.mp hm
  obtain ⟨ts,hts⟩ := hc.exists_terms
  have hext := extends_of_insert hins
  obtain ⟨-,hnew,rfl⟩ := insert_eq_ok_iff.mp hins
  cases conversion with
  | scale f =>
    have hlookup := (lookup_add r ⟨symbol,d,.scale (x * f)⟩ symbol).trans (if_pos rfl)
    exact ⟨x,signature,_,ts,f,hsplit,hts,rfl,hnew,hext,hlookup⟩
  | affine o f => cases ha

/-- One more definition, which holds, of a symbol that the others do not mention. -/
theorem Defines.spec (h : r.Defines δ s) :
    δ.HoldsIn s ∧ r.knows δ.symbol = false ∧ ∃ es, r.Extends es s := by
  obtain ⟨text,x,signature,c,hs,hsplit,hc⟩ := h
  obtain ⟨x',signature',c',ts,f,hsplit',hts,hscale,hnew,hext,hlookup⟩ := define_spec hs
  obtain ⟨-,rfl⟩ := Prod.mk.inj (Except.ok.inj (hsplit.symm.trans hsplit'))
  obtain ⟨rfl,rfl⟩ := hc.unique hts
  exact ⟨hc.holdsIn hscale hext hnew hlookup,hnew,_,hext⟩

/-- Units have been registered or defined one after the other; the latest definition is first. -/
inductive Built (r : Registry) : List Definition → Registry → Prop
  | start : Built r [] r
  | insert {ds : List Definition} {s t : Registry} {e : Entry} (h : Built r ds s)
      (ht : (s.insert e).result = .ok t) : Built r ds t
  | define {ds : List Definition} {δ : Definition} {s t : Registry} (h : Built r ds s)
      (ht : s.Defines δ t) : Built r (δ::ds) t

/-- Definitions that hold, none of which uses a unit that was defined after it. -/
structure AreFounded (r : Registry) (ds : List Definition) : Prop where
  holdsIn : ∀ δ ∈ ds, δ.HoldsIn r
  ordered : ds.Pairwise fun later earlier => ∀ t ∈ earlier.terms, t.symbol ≠ later.symbol

theorem AreFounded.extends {es : List Entry} (h : r.AreFounded ds) (hs : r.Extends es s) :
    s.AreFounded ds where
  holdsIn δ hδ := (h.holdsIn δ hδ).extends hs
  ordered := h.ordered

theorem Built.areFounded (h : r.Built ds s) : s.AreFounded ds := by
  induction h with
  | start => exact ⟨by simp,.nil⟩
  | insert _ ht ih => exact ih.extends (extends_of_insert ht)
  | @define ds δ s t _ ht ih =>
    obtain ⟨hδ,hnew,es,hes⟩ := ht.spec
    refine ⟨List.forall_mem_cons.mpr ⟨hδ,(ih.extends hes).holdsIn⟩,.cons ?_ ih.ordered⟩
    rintro earlier hearlier u hu hsymbol
    -- what an earlier definition uses had been registered by then, and the new symbol was not
    have hknown := (ih.holdsIn earlier hearlier).knowsAll u hu
    rw [hsymbol,hnew] at hknown
    cases hknown

/-- What the definitions expand to has the same dimension, and nothing in it has been defined. -/
theorem AreFounded.unfoldAll (h : r.AreFounded ds) (hts : r.KnowsAll ts) :
    r.dimensionOf (Definition.unfoldAll ds ts) = r.dimensionOf ts ∧
      ∀ t ∈ Definition.unfoldAll ds ts,
        r.knows t.symbol = true ∧ ∀ δ ∈ ds, δ.symbol ≠ t.symbol := by
  obtain ⟨hds,hordered⟩ := h
  induction ds generalizing ts with
  | nil => exact ⟨rfl,fun t ht => ⟨hts t ht,by simp⟩⟩
  | cons δ ds ih =>
    obtain ⟨hδ,hds⟩ := List.forall_mem_cons.mp hds
    obtain ⟨hlater,hordered⟩ := List.pairwise_cons.mp hordered
    have hknown : r.KnowsAll (δ.unfold ts) :=
      Definition.forall_unfold (P := fun symbol => r.knows symbol = true) hδ.knowsAll hts
    obtain ⟨hdimension,hrest⟩ := ih hknown hds hordered
    refine ⟨hdimension.trans (dimensionOf_unfold hδ.dimension_eq ts),fun t ht => ?_⟩
    obtain ⟨hknows,hne⟩ := hrest t ht
    refine ⟨hknows,List.forall_mem_cons.mpr ⟨?_,hne⟩⟩
    -- no earlier definition brings the symbol back
    have hgone : ∀ t ∈ δ.unfold ts, t.symbol ≠ δ.symbol := by
      intro t ht
      rcases Definition.mem_unfold ht with ⟨-,hne⟩ | ⟨u,hu,hsymbol⟩
      · exact hne
      · exact hsymbol ▸ hδ.symbol_ne u hu
    have habsent := Definition.forall_unfoldAll (P := (· ≠ δ.symbol)) hlater hgone
    exact (habsent t ht).symm

theorem exists_defines {symbol text : List Char} (h : (r.define symbol text).result = .ok s) :
    ∃ δ : Definition, δ.symbol = symbol ∧ r.Defines δ s := by
  obtain ⟨x,signature,c,ts,_,hsplit,hts,-⟩ := define_spec h
  exact ⟨⟨symbol,ts⟩,rfl,text,x,signature,c,h,hsplit,hts⟩

/-- The symbols of the entries with a definition, the latest first. -/
def definedSymbols (es : List CatalogEntry) : List (List Char) :=
  ((es.filter fun e => e.definition.isSome).map CatalogEntry.symbol).reverse

theorem Built.exists_of_applies {es : List CatalogEntry} (h : r.Built ds s)
    (hs : s.Applies es t) :
    ∃ ds', r.Built (ds' ++ ds) t ∧ ds'.map Definition.symbol = definedSymbols es := by
  induction hs generalizing ds with
  | nil => exact ⟨[],h,rfl⟩
  | @cons s t q e es he _ ih =>
    obtain ⟨u,hu,hins⟩ := CatalogEntry.apply_eq_ok_iff.mp he
    cases hu with
    | definition hm ha =>
      obtain ⟨δ,hsymbol,hδ⟩ := exists_defines (define_eq_ok_iff.mpr ⟨_,_,hm,ha,hins⟩)
      obtain ⟨ds',hds',hsymbols⟩ := ih (h.define hδ)
      refine ⟨ds' ++ [δ],by simpa using hds',?_⟩
      simp [hsymbols,hsymbol,definedSymbols]
    | scale =>
      obtain ⟨ds',hds',hsymbols⟩ := ih (h.insert hins)
      exact ⟨ds',hds',by simpa [definedSymbols] using hsymbols⟩
    | affine =>
      obtain ⟨ds',hds',hsymbols⟩ := ih (h.insert hins)
      exact ⟨ds',hds',by simpa [definedSymbols] using hsymbols⟩

end Registry

namespace Change
open Registry

def definedSymbols : Change → List (List Char)
  | insert _ => []
  | define symbol _ => [symbol]
  | load text => Registry.definedSymbols ((Catalog.read text).getD [])

/-- Whatever a change does, it inserts and defines units one after the other. -/
theorem exists_built {r s t : Registry} {ds : List Definition} (h : r.Built ds s) {c : Change}
    {n : Nat} (ht : (c.apply s).result = .ok (t,n)) :
    ∃ ds', r.Built (ds' ++ ds) t ∧ ds'.map Definition.symbol = c.definedSymbols := by
  cases c with
  | insert e =>
    obtain ⟨ht,-⟩ := apply_insert_eq_ok_iff.mp ht
    exact ⟨[],h.insert ht,rfl⟩
  | define symbol text =>
    obtain ⟨ht,-⟩ := apply_define_eq_ok_iff.mp ht
    obtain ⟨δ,hsymbol,hδ⟩ := exists_defines ht
    exact ⟨[δ],h.define hδ,by simp [hsymbol,definedSymbols]⟩
  | load text =>
    obtain ⟨es,hread,hall,-⟩ := load_eq_ok_iff.mp ht
    obtain ⟨ds',hds',hsymbols⟩ := h.exists_of_applies (applyAll_eq_ok_iff.mp hall)
    exact ⟨ds',hds',by rw [hsymbols,definedSymbols,hread,Option.getD_some]⟩

end Change

namespace Registry
variable {r s t : Registry} {ts us : List Term} {δ : Definition} {ds : List Definition}

/-- A definition that succeeds makes a unit with a factor, which can be replaced by the terms of the
definition in every signature. After any insertions and definitions, a unit has the exponents of
what it finally expands to, which are registered units that have not been defined. Every change,
also the load of a catalog, amounts to insertions and definitions. -/
theorem definitions_are_transparent (r : Registry) :
    (∀ symbol text s, (r.define symbol text).result = .ok s →
      ∃ x signature c ts f, Measurement.split text = .ok (x,signature) ∧
        r.MeansTerms signature c ts ∧
        (∀ t ∈ ts, ∃ e, r.lookup t.symbol = some e ∧ e.conversion.isAffine = false) ∧
        c.conversion = .scale f ∧
        s.lookup symbol = some ⟨symbol,c.dimension,.scale (x * f)⟩ ∧
        ∀ signature us d, Signature.read s.knows signature = .ok us →
          (s.resolve signature).result = .ok d →
          d.dimension = s.dimensionOf ((⟨symbol,ts⟩ : Definition).unfold us)) ∧
    (∀ ds s, r.Built ds s → ∀ symbol e, s.lookup symbol = some e →
      e.dimension = s.dimensionOf (Definition.unfoldAll ds [⟨symbol,1⟩]) ∧
        ∀ t ∈ Definition.unfoldAll ds [⟨symbol,1⟩],
          s.knows t.symbol = true ∧ ∀ δ ∈ ds, δ.symbol ≠ t.symbol) ∧
    ∀ ds s, r.Built ds s → ∀ (c : Change) t n, (c.apply s).result = .ok (t,n) →
      ∃ ds', r.Built (ds' ++ ds) t ∧ ds'.map Definition.symbol = c.definedSymbols := by
  refine ⟨?_,?_,fun ds s hs c t n ht => Change.exists_built hs ht⟩
  · intro symbol text s hs
    obtain ⟨x,signature,c,ts,f,hsplit,hts,hscale,hnew,hext,hlookup⟩ := define_spec hs
    refine ⟨x,signature,c,ts,f,hsplit,hts,hts.isScaled hscale,hscale,hlookup,?_⟩
    intro signature' us d hread hd
    have hholds := hts.holdsIn hscale hext hnew hlookup
    rw [dimensionOf_unfold hholds.dimension_eq]
    exact (yields_of_resolve hd hread).dimension_eq
  · intro ds s hs symbol e he
    have hknown : s.KnowsAll [⟨symbol,1⟩] := by simpa [KnowsAll] using knows_of_lookup he
    obtain ⟨hdimension,hrest⟩ := hs.areFounded.unfoldAll hknown
    refine ⟨?_,hrest⟩
    rw [hdimension]
    simp [unitDimension_of_lookup he]

theorem define_eq_after {symbol text : List Char}
    (h : (r.define symbol text).result.toOption.isSome = true) :
    (r.define symbol text).result = .ok ((Change.define symbol text).after r) := by
  obtain ⟨s,hs⟩ := Outcome.exists_eq_ok h
  rw [hs,Change.after_eq_of_apply (Change.apply_define_eq_ok_iff.mpr ⟨hs,rfl⟩)]

/-- A patch is defined by furlongs, and these are defined by metres. -/
theorem definitions_are_transparent_patch :
    let s := (Change.define "furlong".toList "201.168 m".toList).after builtin
    let t := (Change.define "patch".toList "2 furlong^3/furlong".toList).after s
    ∃ e, t.lookup "patch".toList = some e ∧
      e.dimension = t.dimensionOf [⟨"m".toList,3⟩,⟨"m".toList,-1⟩] := by
  intro s t
  have hs : (builtin.define "furlong".toList "201.168 m".toList).result = .ok s :=
    define_eq_after (by decide +kernel)
  have ht : (s.define "patch".toList "2 furlong^3/furlong".toList).result = .ok t :=
    define_eq_after (by decide +kernel)
  obtain ⟨c,hc⟩ : ∃ c, (builtin.resolve "m".toList).result = .ok c :=
    Outcome.exists_eq_ok (by decide +kernel)
  obtain ⟨d,hd⟩ : ∃ d, (s.resolve "furlong^3/furlong".toList).result = .ok d :=
    Outcome.exists_eq_ok (by decide +kernel)
  have hread : Signature.read s.knows "furlong^3/furlong".toList =
      .ok [⟨"furlong".toList,3⟩,⟨"furlong".toList,-1⟩] := by decide +kernel
  have hfurlong : builtin.Defines ⟨"furlong".toList,[⟨"m".toList,1⟩]⟩ s :=
    ⟨"201.168 m".toList,_,"m".toList,c,hs,rfl,.inr ⟨hc,rfl⟩⟩
  have hpatch : s.Defines
      ⟨"patch".toList,[⟨"furlong".toList,3⟩,⟨"furlong".toList,-1⟩]⟩ t :=
    ⟨"2 furlong^3/furlong".toList,_,"furlong^3/furlong".toList,d,ht,rfl,.inr ⟨hd,hread⟩⟩
  have hbuilt := (Built.start.define hfurlong).define hpatch
  obtain ⟨_,_,_,_,_,-,-,-,-,hlookup,-⟩ := (definitions_are_transparent s).1 _ _ t ht
  have hexpansion := (definitions_are_transparent builtin).2.1 _ t hbuilt _ _ hlookup
  exact ⟨_,hlookup,hexpansion.1⟩

end Registry
end Mensura
