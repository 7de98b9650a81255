import Mensura.Catalog
import Mensura.Proofs.Registry.Resolution
import Mensura.Proofs.Signature.Term

/-! What a change can do to a registry: it adds entries, each of them fit and with a symbol that is
not taken yet, or it fails. Everything that all changes keep follows from this. -/
namespace Mensura

theorem isUsable_one : isUsable Scalar.one = true := by decide +kernel

namespace Entry

/-- The exponents are numbers of 32 bits, as those of every entry that is read or defined. -/
def Representable (e : Entry) : Prop := e.dimension.Fits

instance (e : Entry) : Decidable e.Representable := inferInstanceAs (Decidable e.dimension.Fits)

theorem isUsable_of_fault? {e : Entry} (h : e.fault? = none) :
    isUsable e.conversion.factor = true := by
  have hc := ((fault?_eq_none_iff e).mp h).2
  cases hu : isUsable e.conversion.factor with
  | true => rfl
  | false => simp [conversionFault?,hu] at hc

end Entry

namespace Registry

theorem mem_entries_of_lookup {r : Registry} {s : List Char} {e : Entry}
    (h : r.lookup s = some e) : e ∈ r.entries :=
  List.mem_of_find?_eq_some h

theorem knows_of_lookup {r : Registry} {s : List Char} {e : Entry} (h : r.lookup s = some e) :
    r.knows s = true := by
  simp [knows,h]

/-- The second registry has more entries in front, the latest first. -/
inductive Extends (r : Registry) : List Entry → Registry → Prop
  | refl : Extends r [] r
  | add {es : List Entry} {s : Registry} {e : Entry} (h : Extends r es s)
      (hfit : e.fault? = none) (hnew : s.knows e.symbol = false) : Extends r (e::es) (s.add e)

theorem Extends.trans {r s t : Registry} {es fs : List Entry} (h : r.Extends es s)
    (h' : s.Extends fs t) : r.Extends (fs ++ es) t := by
  induction h' with
  | refl => exact h
  | add _ hfit hnew ih => exact .add ih hfit hnew

theorem Extends.size_eq {r s : Registry} {es : List Entry} (h : r.Extends es s) :
    s.size = r.size + es.length := by
  induction h with
  | refl => rfl
  | add _ _ _ ih => rw [size_add,ih,List.length_cons,Nat.add_assoc]

theorem Extends.mem_entries {r s : Registry} {es : List Entry} (h : r.Extends es s) {e : Entry}
    (he : e ∈ s.entries) : e ∈ es ∨ e ∈ r.entries := by
  induction h with
  | refl => exact .inr he
  | add _ _ _ ih =>
    rcases List.mem_cons.mp he with rfl | he
    · exact .inl List.mem_cons_self
    · exact (ih he).imp_left (List.mem_cons_of_mem _)

/-- What is registered stays registered, and stays the same. -/
theorem Extends.lookup_eq {r s : Registry} {es : List Entry} (h : r.Extends es s)
    {symbol : List Char} {e : Entry} (he : r.lookup symbol = some e) :
    s.lookup symbol = some e := by
  induction h with
  | refl => exact he
  | add _ _ hnew ih =>
    rw [lookup_add,if_neg,ih]
    rintro rfl
    simp [knows,ih] at hnew

theorem Extends.knows_of_knows {r s : Registry} {es : List Entry} (h : r.Extends es s)
    {symbol : List Char} (hknown : r.knows symbol = true) : s.knows symbol = true := by
  obtain ⟨e,he⟩ := Option.isSome_iff_exists.mp hknown
  exact knows_of_lookup (h.lookup_eq he)

theorem insert_eq_ok_iff {r s : Registry} {e : Entry} :
    (r.insert e).result = .ok s ↔ e.fault? = none ∧ r.knows e.symbol = false ∧ s = r.add e := by
  unfold insert
  cases hfault : e.fault? with
  | some fault => simp
  | none =>
    cases hknown : r.knows e.symbol with
    | true => simp
    | false => simp [Except.bind,eq_comm]

theorem extends_of_insert {r s : Registry} {e : Entry} (h : (r.insert e).result = .ok s) :
    r.Extends [e] s := by
  obtain ⟨hfit,hnew,rfl⟩ := insert_eq_ok_iff.mp h
  exact .add .refl hfit hnew

theorem Means.fits {r : Registry} {signature : List Char} {c : Resolution}
    (h : r.Means signature c) (ha : c.conversion.isAffine = false) : c.dimension.Fits := by
  rcases h with ⟨-,rfl⟩ | ⟨ts,-,hc⟩
  · exact Dimension.fits_dimensionless
  · cases hc with
    | offset _ ha' => simp [ha'] at ha
    | @product _ us _ hrange _ => simpa using hrange.2 us.length

/-- A definition registers an entry like any other; its exponents have been checked. -/
theorem insert_of_define {r s : Registry} {symbol definition : List Char}
    (h : (r.define symbol definition).result = .ok s) :
    ∃ e : Entry, e.symbol = symbol ∧ e.Representable ∧ (r.insert e).result = .ok s := by
  obtain ⟨⟨x,c⟩,hm,h⟩ := Outcome.bind_eq_ok_iff.mp h
  obtain ⟨signature,-,hc⟩ := measure_eq_ok_iff.mp (Outcome.mapError_eq_ok_iff.mp hm)
  cases ha : c.conversion.isAffine with
  | true => simp [ha] at h
  | false =>
    simp only [ha] at h
    exact ⟨⟨symbol,c.dimension,.scale (x * c.conversion.factor)⟩,rfl,hc.fits ha,h⟩

end Registry

namespace CatalogEntry
open Toml (Value)

def Representable (e : CatalogEntry) : Prop := ∀ d, e.dimension = some d → d.Fits

theorem insert_of_apply {r s : Registry} {e : CatalogEntry} (h : (e.apply r).result = .ok s) :
    ∃ u : Entry, u.symbol = e.symbol ∧ (e.Representable → u.Representable) ∧
      (r.insert u).result = .ok s := by
  unfold apply at h
  split at h
  · split at h
    · simp at h
    · obtain ⟨u,hu,hfits,h⟩ := Registry.insert_of_define h
      exact ⟨u,hu,fun _ => hfits,h⟩
  · refine ⟨_,rfl,fun he => ?_,h⟩
    show (e.dimension.getD .dimensionless).Fits
    cases hd : e.dimension with
    | none => exact Dimension.fits_dimensionless
    | some d => exact he d hd
  · simp at h
  · simp at h

theorem fits_of_readExponent {v : Value} {n : Int} (h : readExponent v = some n) :
    Dimension.fits n = true := by
  unfold readExponent at h
  split at h
  · obtain ⟨hn,rfl⟩ := Dimension.checked?_eq_some_iff.mp h
    exact hn
  · simp at h

theorem fits_of_readDimension {v : Value} {d : Dimension} (h : readDimension v = some d) :
    d.Fits := by
  unfold readDimension at h
  split at h
  · simp only [Option.bind_eq_bind,Option.bind_eq_some_iff] at h
    obtain ⟨l,hl,m,hm,t,ht,θ,hθ,a,ha,h⟩ := h
    cases h
    simp only [Dimension.Fits,Dimension.exponents,List.forall_mem_cons]
    exact ⟨fits_of_readExponent hl,fits_of_readExponent hm,fits_of_readExponent ht,
      fits_of_readExponent hθ,fits_of_readExponent ha,by simp⟩
  · simp at h

theorem readOptional_eq_some {β : Type} {read : Value → Option β} {o : Option Value} {x : β}
    (h : readOptional read o = some (some x)) : ∃ v, read v = some x := by
  cases o with
  | none => simp [readOptional] at h
  | some v => exact ⟨v,by simpa [readOptional] using h⟩

theorem representable_of_ofFields {fields : List (List Char × Value)} {e : CatalogEntry}
    (h : ofFields fields = some e) : e.Representable := by
  simp only [ofFields,Option.bind_eq_bind,Option.bind_eq_some_iff] at h
  obtain ⟨_,-,_,-,_,-,_,-,dimension,hdim,h⟩ := h
  cases h
  rintro d rfl
  obtain ⟨v,hv⟩ := readOptional_eq_some hdim
  exact fits_of_readDimension hv

theorem representable_of_ofValue {v : Value} {e : CatalogEntry} (h : ofValue v = some e) :
    e.Representable := by
  unfold ofValue at h
  split at h
  · split at h
    · exact representable_of_ofFields h
    · simp at h
  · exact representable_of_ofFields h
  · simp at h

end CatalogEntry

theorem Catalog.mem_of_mapM {α β : Type} {f : α → Option β} {xs : List α} {ys : List β}
    (h : xs.mapM f = some ys) {y : β} (hy : y ∈ ys) : ∃ x, f x = some y := by
  induction xs generalizing ys with
  | nil =>
    cases h
    simp at hy
  | cons x xs ih =>
    simp only [List.mapM_cons,Option.bind_eq_bind,Option.bind_eq_some_iff] at h
    obtain ⟨z,hz,zs,hzs,h⟩ := h
    cases h
    rcases List.mem_cons.mp hy with rfl | hy
    · exact ⟨x,hz⟩
    · exact ih hzs hy

/-- Exponents out of range make a catalog unreadable. -/
theorem Catalog.representable_of_read {text : List Char} {es : List CatalogEntry}
    (h : Catalog.read text = some es) : ∀ e ∈ es, e.Representable := by
  intro e he
  obtain ⟨document,-,h⟩ := Option.bind_eq_some_iff.mp h
  have hv : ∃ v, CatalogEntry.ofValue v = some e := by
    unfold ofDocument at h
    split at h
    · split at h
      · cases h
        simp at he
      · exact Catalog.mem_of_mapM h he
      · exact Catalog.mem_of_mapM h he
      · simp at h
    · simp at h
  obtain ⟨v,hv⟩ := hv
  exact CatalogEntry.representable_of_ofValue hv

namespace Registry

/-- A catalog adds one entry for each of its own. -/
theorem extends_of_applyAll {r s : Registry} {es : List CatalogEntry}
    (h : (r.applyAll es).result = .ok s) :
    ∃ us, r.Extends us s ∧ us.length = es.length ∧
      ((∀ e ∈ es, e.Representable) → ∀ u ∈ us, u.Representable) := by
  induction es generalizing r with
  | nil =>
    cases h
    exact ⟨[],.refl,rfl,by simp⟩
  | cons e es ih =>
    rw [applyAll_cons,Outcome.bind_eq_ok_iff] at h
    obtain ⟨t,ht,h⟩ := h
    rw [Outcome.result_reportError] at ht
    obtain ⟨u,-,hu,hins⟩ := CatalogEntry.insert_of_apply ht
    obtain ⟨us,hus,hlen,hrep⟩ := ih h
    refine ⟨us ++ [u],(extends_of_insert hins).trans hus,by simp [hlen],?_⟩
    intro hes v hv
    rcases List.mem_append.mp hv with hv | hv
    · exact hrep (fun e he => hes e (List.mem_cons_of_mem _ he)) v hv
    · rw [List.mem_singleton.mp hv]
      exact hu (hes e List.mem_cons_self)

theorem load_eq_ok_iff {r s : Registry} {text : List Char} {n : Nat} :
    (r.load text).result = .ok (s,n) ↔
      ∃ es, Catalog.read text = some es ∧ (r.applyAll es).result = .ok s ∧ n = es.length := by
  unfold load
  cases hread : Catalog.read text with
  | none => simp
  | some es =>
    simp only [Outcome.bind_eq_ok_iff,Option.some.injEq]
    constructor
    · rintro ⟨t,ht,_,-,h⟩
      cases h
      exact ⟨es,rfl,ht,rfl⟩
    · rintro ⟨_,rfl,ht,rfl⟩
      exact ⟨s,ht,(),rfl,rfl⟩

end Registry

namespace Change

/-- The exponents of an entry that is inserted are numbers of 32 bits. -/
def Representable : Change → Prop
  | insert e => e.Representable
  | define .. | load _ => True

/-- A registry that is returned with the number one. -/
theorem counted_eq_ok_iff {o : Outcome RegistryError Registry} {s : Registry} {n : Nat} :
    (o >>= fun r => pure (r,1) : Outcome RegistryError (Registry × Nat)).result = .ok (s,n) ↔
      o.result = .ok s ∧ n = 1 := by
  constructor
  · intro h
    obtain ⟨t,ht,h⟩ := Outcome.bind_eq_ok_iff.mp h
    cases h
    exact ⟨ht,rfl⟩
  · rintro ⟨h,rfl⟩
    exact Outcome.bind_eq_ok_iff.mpr ⟨s,h,rfl⟩

theorem apply_insert_eq_ok_iff {r s : Registry} {e : Entry} {n : Nat} :
    ((insert e).apply r).result = .ok (s,n) ↔ (r.insert e).result = .ok s ∧ n = 1 :=
  counted_eq_ok_iff

theorem apply_define_eq_ok_iff {r s : Registry} {symbol definition : List Char} {n : Nat} :
    ((define symbol definition).apply r).result = .ok (s,n) ↔
      (r.define symbol definition).result = .ok s ∧ n = 1 :=
  counted_eq_ok_iff

/-- All that a change can do. -/
theorem extends_of_apply {r s : Registry} {c : Change} {n : Nat}
    (h : (c.apply r).result = .ok (s,n)) :
    ∃ us, r.Extends us s ∧ us.length = n ∧ (c.Representable → ∀ u ∈ us, u.Representable) := by
  cases c with
  | insert e =>
    obtain ⟨hs,rfl⟩ := apply_insert_eq_ok_iff.mp h
    refine ⟨[e],Registry.extends_of_insert hs,rfl,fun he u hu => ?_⟩
    rw [List.mem_singleton.mp hu]
    exact he
  | define symbol definition =>
    obtain ⟨hs,rfl⟩ := apply_define_eq_ok_iff.mp h
    obtain ⟨e,-,hfits,he⟩ := Registry.insert_of_define hs
    exact ⟨[e],Registry.extends_of_insert he,rfl,fun _ => by simpa using hfits⟩
  | load text =>
    obtain ⟨es,hread,hall,rfl⟩ := Registry.load_eq_ok_iff.mp h
    obtain ⟨us,hus,hlen,hrep⟩ := Registry.extends_of_applyAll hall
    exact ⟨us,hus,hlen,fun _ => hrep (Catalog.representable_of_read hread)⟩

end Change

/-! What signatures mean in a registry that has more units. A signature that means something keeps
its meaning, unless one of its words ends in a digit and has become a symbol as a whole. -/
namespace Registry

/-- Products are taken of the same units if all of them are still registered. -/
theorem Yields.mono {r s : Registry}
    (h : ∀ symbol e, r.lookup symbol = some e → s.lookup symbol = some e)
    {ts : List Signature.Term} {c : Resolution} (hc : r.Yields ts c) : s.Yields ts c := by
  cases hc with
  | offset he ha => exact .offset (h _ _ he) ha
  | product hus hrange hf =>
    exact .product (hus.imp fun t u hu => ⟨h _ _ hu.1,hu.2⟩) hrange hf

theorem Extends.knows_eq {r s : Registry} {us : List Entry} (h : r.Extends us s)
    {symbol : List Char} (hnew : ∀ u ∈ us, u.symbol ≠ symbol) :
    s.knows symbol = r.knows symbol := by
  induction h with
  | refl => rfl
  | add _ _ _ ih =>
    obtain ⟨hne,hrest⟩ := List.forall_mem_cons.mp hnew
    rw [knows,lookup_add,if_neg hne]
    exact ih hrest

/-- A word is cut in the same way unless it is new and ends in a digit. -/
theorem Extends.readTerm_eq {r s : Registry} {us : List Entry} (h : r.Extends us s)
    {w : List Char} (hw : ∀ u ∈ us, u.symbol = w → Text.endsIn Char.isDigit w = false) :
    Signature.readTerm s.knows w = Signature.readTerm r.knows w := by
  apply Signature.readTerm_congr
  by_cases hnew : ∃ u ∈ us, u.symbol = w
  · obtain ⟨u,hu,hsymbol⟩ := hnew
    exact .inr (hw u hu hsymbol)
  · push Not at hnew
    exact .inl (h.knows_eq hnew)

theorem Extends.resolve_eq {r s : Registry} {us : List Entry} (h : r.Extends us s)
    {signature : List Char}
    (hw : ∀ u ∈ us, Signature.IsMaximalWord u.symbol signature →
      Text.endsIn Char.isDigit u.symbol = false)
    {c : Resolution} (hc : (r.resolve signature).result = .ok c) :
    (s.resolve signature).result = .ok c := by
  obtain ⟨ts,hread,hy⟩ := resolve_eq_ok_iff.mp hc
  have hwords : ∀ w, Signature.IsMaximalWord w signature →
      Signature.readTerm s.knows w = Signature.readTerm r.knows w := by
    intro w hmax
    apply h.readTerm_eq
    rintro u hu rfl
    exact hw u hu hmax
  have hsame : Signature.read s.knows signature = .ok ts :=
    (Signature.read_congr hwords).trans hread
  exact resolve_eq_ok_iff.mpr ⟨ts,hsame,hy.mono fun _ _ he => h.lookup_eq he⟩

/-- A new unit changes the meaning of a signature only if its symbol, in full, is one of the words
and ends in a digit. -/
theorem resolve_of_new_symbol {r s : Registry} {x : List Char}
    (hs : (∃ e : Entry, e.symbol = x ∧ (r.insert e).result = .ok s) ∨
      ∃ definition, (r.define x definition).result = .ok s)
    {signature : List Char} {c : Resolution} (hc : (r.resolve signature).result = .ok c)
    (hx : ¬(Text.endsIn Char.isDigit x = true ∧ Signature.IsMaximalWord x signature)) :
    (s.resolve signature).result = .ok c := by
  obtain ⟨e,rfl,he⟩ : ∃ e : Entry, e.symbol = x ∧ (r.insert e).result = .ok s := by
    rcases hs with hs | ⟨definition,hs⟩
    · exact hs
    · obtain ⟨e,hsymbol,-,he⟩ := insert_of_define hs
      exact ⟨e,hsymbol,he⟩
  apply (extends_of_insert he).resolve_eq _ hc
  intro u hu hmax
  rw [List.mem_singleton.mp hu] at hmax ⊢
  cases hend : Text.endsIn Char.isDigit e.symbol with
  | false => rfl
  | true => exact absurd ⟨hend,hmax⟩ hx

/-- The word ends with the new symbol, but it has more in front. -/
theorem resolve_of_new_square_second :
    let e : Entry := ⟨"s2".toList,⟨1,0,0,0,0⟩,.scale (Scalar.ofInt 5)⟩
    ∃ s c, (builtin.insert e).result = .ok s ∧
      (builtin.resolve "kg/ms2".toList).result = .ok c ∧
      (s.resolve "kg/ms2".toList).result = .ok c := by
  intro e
  have hfit : e.fault? = none := by decide +kernel
  have hnew : builtin.knows "s2".toList = false := by decide +kernel
  have hins := insert_eq_ok_iff.mpr ⟨hfit,hnew,rfl⟩
  obtain ⟨c,hc⟩ : ∃ c, (builtin.resolve "kg/ms2".toList).result = .ok c :=
    Outcome.exists_eq_ok (by decide +kernel)
  exact ⟨_,c,hins,hc,resolve_of_new_symbol (.inl ⟨e,rfl,hins⟩) hc (by decide)⟩

-- In this case the meaning does change.
example :
    let r := builtin.add ⟨"s2".toList,⟨1,0,0,0,0⟩,.identity⟩
    ((builtin.resolve "s2".toList).result.toOption.map Resolution.dimension) = some ⟨0,0,2,0,0⟩ ∧
      ((r.resolve "s2".toList).result.toOption.map Resolution.dimension) = some ⟨1,0,0,0,0⟩ := by
  decide +kernel

end Registry
end Mensura
