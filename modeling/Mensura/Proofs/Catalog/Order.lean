import Mensura.Proofs.Catalog.Transaction
import Mensura.Proofs.Registry.Extension

/-! The order of a catalog. A definition can only be read after the units in it, so another order
may fail; but as long as no new symbol ends in a digit, every signature is cut into the same terms
at every point of every run, and the terms name the same units wherever they name any. So two runs
that succeed register the same units. -/
namespace Mensura

namespace Registry

/-- What is registered in the first is registered in the second, and is the same there. -/
def IsPartOf (r s : Registry) : Prop :=
  ∀ symbol e, r.lookup symbol = some e → s.lookup symbol = some e

theorem Extends.isPartOf {r s : Registry} {us : List Entry} (h : r.Extends us s) :
    r.IsPartOf s := fun _ _ he => h.lookup_eq he

theorem IsPartOf.trans {r s t : Registry} (h : r.IsPartOf s) (h' : s.IsPartOf t) :
    r.IsPartOf t := fun symbol e he => h' symbol e (h symbol e he)

theorem IsPartOf.add {r s : Registry} (h : r.IsPartOf s) {e : Entry}
    (he : s.lookup e.symbol = some e) : (r.add e).IsPartOf s := by
  intro symbol f hf
  rw [lookup_add] at hf
  split at hf
  · rename_i hs
    cases hf
    exact hs ▸ he
  · exact h symbol f hf

theorem IsPartOf.lookup_eq {r s : Registry} (h : r.IsPartOf s) (h' : s.IsPartOf r)
    (symbol : List Char) : r.lookup symbol = s.lookup symbol := by
  ext e
  exact ⟨h symbol e,h' symbol e⟩

/-- New symbols without a digit at the end change nothing in how signatures are read. -/
theorem Extends.read_eq {r s : Registry} {us : List Entry} (h : r.Extends us s)
    (hdigit : ∀ u ∈ us, Text.endsIn Char.isDigit u.symbol = false) (signature : List Char) :
    Signature.read s.knows signature = Signature.read r.knows signature := by
  apply Signature.read_congr
  intro w _
  exact h.readTerm_eq fun u hu hw => hw ▸ hdigit u hu

/-- Whatever two parts of a registry read in the same way means the same in both. -/
theorem Means.unique {r s t : Registry} (hr : r.IsPartOf t) (hs : s.IsPartOf t)
    {signature : List Char}
    (hread : Signature.read r.knows signature = Signature.read s.knows signature)
    {c d : Resolution} (hc : r.Means signature c) (hd : s.Means signature d) : c = d := by
  rcases hc with ⟨rfl,rfl⟩ | ⟨ts,hts,hc⟩
  · rcases hd with ⟨-,rfl⟩ | ⟨us,hus,-⟩
    · rfl
    · simp [read_nil] at hus
  · rcases hd with ⟨rfl,-⟩ | ⟨us,hus,hd⟩
    · simp [read_nil] at hts
    · have hsame : ts = us := Except.ok.inj (hts.symm.trans (hread.trans hus))
      subst us
      exact (hc.mono hr).unique (hd.mono hs)

theorem define_eq_ok_iff {r s : Registry} {symbol definition : List Char} :
    (r.define symbol definition).result = .ok s ↔
      ∃ x c, (r.measure definition).result = .ok (x,c) ∧ c.conversion.isAffine = false ∧
        (r.insert ⟨symbol,c.dimension,.scale (x * c.conversion.factor)⟩).result = .ok s := by
  simp only [define,Outcome.bind_eq_ok_iff,Outcome.result_mapError,Outcome.mapError_eq_ok_iff,
    Prod.exists]
  refine exists_congr fun x => exists_congr fun c => and_congr_right fun _ => ?_
  cases ha : c.conversion.isAffine with
  | true => simp
  | false => simp

end Registry

namespace CatalogEntry

/-- The unit that an entry describes, which depends on the registry if it has a definition. -/
inductive Describes (r : Registry) : CatalogEntry → Entry → Prop
  | definition {symbol definition : List Char} {x : Float} {c : Resolution}
      (hm : (r.measure definition).result = .ok (x,c)) (ha : c.conversion.isAffine = false) :
      Describes r ⟨symbol,some definition,none,none,none⟩
        ⟨symbol,c.dimension,.scale (x * c.conversion.factor)⟩
  | scale (symbol : List Char) (factor : Float) (d : Option Dimension) :
      Describes r ⟨symbol,none,some factor,none,d⟩ ⟨symbol,d.getD .dimensionless,.scale factor⟩
  | affine (symbol : List Char) (factor offset : Float) (d : Option Dimension) :
      Describes r ⟨symbol,none,some factor,some offset,d⟩
        ⟨symbol,d.getD .dimensionless,.affine offset factor⟩

theorem Describes.symbol_eq {r : Registry} {e : CatalogEntry} {u : Entry} (h : Describes r e u) :
    u.symbol = e.symbol := by
  cases h <;> rfl

theorem apply_eq_ok_iff {r s : Registry} {e : CatalogEntry} :
    (e.apply r).result = .ok s ↔ ∃ u, Describes r e u ∧ (r.insert u).result = .ok s := by
  obtain ⟨symbol,definition,factor,offset,dimension⟩ := e
  constructor
  · intro h
    cases definition with
    | none =>
      cases factor with
      | none => simp [apply] at h
      | some factor =>
        cases offset with
        | none => exact ⟨_,.scale symbol factor dimension,h⟩
        | some offset => exact ⟨_,.affine symbol factor offset dimension,h⟩
    | some definition =>
      cases factor with
      | some factor => simp [apply] at h
      | none =>
        cases offset with
        | some offset => simp [apply] at h
        | none =>
          cases dimension with
          | some dimension => simp [apply] at h
          | none =>
            obtain ⟨x,c,hm,ha,hins⟩ := Registry.define_eq_ok_iff.mp h
            exact ⟨_,.definition hm ha,hins⟩
  · rintro ⟨u,hu,hins⟩
    cases hu with
    | definition hm ha => exact Registry.define_eq_ok_iff.mpr ⟨_,_,hm,ha,hins⟩
    | scale => exact hins
    | affine => exact hins

/-- An entry describes the same unit in two parts of a registry that read alike. -/
theorem Describes.unique {r s t : Registry} (hr : r.IsPartOf t) (hs : s.IsPartOf t)
    (hread : ∀ signature, Signature.read r.knows signature = Signature.read s.knows signature)
    {e : CatalogEntry} {u v : Entry} (hu : Describes r e u) (hv : Describes s e v) : u = v := by
  cases hu with
  | @definition symbol definition x c hm ha =>
    cases hv with
    | @definition _ _ y d hm' ha' =>
      obtain ⟨signature,hsplit,hc⟩ := Registry.measure_eq_ok_iff.mp hm
      obtain ⟨signature',hsplit',hd⟩ := Registry.measure_eq_ok_iff.mp hm'
      have hsame : (x,signature) = (y,signature') :=
        Except.ok.inj (hsplit.symm.trans hsplit')
      obtain ⟨hx,hsignature⟩ := Prod.mk.inj hsame
      subst hx hsignature
      have hmeaning : c = d := hc.unique hr hs (hread signature) hd
      rw [hmeaning]
  | scale => cases hv with | scale => rfl
  | affine => cases hv with | affine => rfl

end CatalogEntry

namespace Registry

theorem Applies.extends_of_digit {r s : Registry} {es : List CatalogEntry} (h : r.Applies es s)
    (hdigit : ∀ e ∈ es, Text.endsIn Char.isDigit e.symbol = false) :
    ∃ us, r.Extends us s ∧ ∀ u ∈ us, Text.endsIn Char.isDigit u.symbol = false := by
  obtain ⟨us,hus,hsymbols⟩ := h.extends
  refine ⟨us,hus,fun u hu => ?_⟩
  have hmem : u.symbol ∈ (es.map CatalogEntry.symbol).reverse :=
    hsymbols ▸ List.mem_map_of_mem hu
  obtain ⟨e,he,hsymbol⟩ := List.mem_map.mp (List.mem_reverse.mp hmem)
  exact hsymbol ▸ hdigit e he

/-- An entry of a run describes, at any point of another run, the unit that the run ends with. -/
theorem Applies.lookup_of_describes {start r t : Registry} {fs : List CatalogEntry}
    (ht : start.Applies fs t) (hdigit : ∀ f ∈ fs, Text.endsIn Char.isDigit f.symbol = false)
    (hread : ∀ signature,
      Signature.read r.knows signature = Signature.read start.knows signature)
    (hpart : r.IsPartOf t) {e : CatalogEntry} (he : e ∈ fs) {u : Entry}
    (hu : CatalogEntry.Describes r e u) : t.lookup u.symbol = some u := by
  obtain ⟨before,rest,rfl⟩ := List.append_of_mem he
  obtain ⟨q,hbefore,hrest⟩ := applies_append_iff.mp ht
  obtain ⟨ws,hws,hwdigit⟩ := hbefore.extends_of_digit fun f hf => hdigit f (by simp [hf])
  cases hrest with
  | cons happly hafter =>
    obtain ⟨v,hv,hins⟩ := CatalogEntry.apply_eq_ok_iff.mp happly
    obtain ⟨-,-,rfl⟩ := insert_eq_ok_iff.mp hins
    obtain ⟨vs,hvs,-⟩ := hafter.extends
    have hfound : t.lookup v.symbol = some v := by
      apply hvs.lookup_eq
      simp [lookup_add]
    have hq : q.IsPartOf t := (extends_of_insert hins).isPartOf.trans hvs.isPartOf
    have hsame : u = v :=
      hu.unique hpart hq (fun signature => (hread signature).trans (hws.read_eq hwdigit _).symm) hv
    rw [hsame]
    exact hfound

/-- The invariant of the run: what it has registered so far is what the other run registers. -/
theorem Applies.isPartOf {start r s t : Registry} {es fs : List CatalogEntry} (hs : r.Applies es s)
    (ht : start.Applies fs t) (hdigit : ∀ f ∈ fs, Text.endsIn Char.isDigit f.symbol = false)
    (hes : ∀ e ∈ es, e ∈ fs)
    (hread : ∀ signature,
      Signature.read r.knows signature = Signature.read start.knows signature)
    (hpart : r.IsPartOf t) : s.IsPartOf t := by
  induction hs with
  | nil => exact hpart
  | @cons r q s e es he _ ih =>
    obtain ⟨hmem,hrest⟩ := List.forall_mem_cons.mp hes
    obtain ⟨u,hu,hins⟩ := CatalogEntry.apply_eq_ok_iff.mp he
    have hudigit : Text.endsIn Char.isDigit u.symbol = false := hu.symbol_eq ▸ hdigit e hmem
    have hq := extends_of_insert hins
    have hsame : ∀ signature,
        Signature.read q.knows signature = Signature.read start.knows signature :=
      fun signature => (hq.read_eq (by simpa using hudigit) signature).trans (hread signature)
    have hfound := ht.lookup_of_describes hdigit hread hpart hmem hu
    obtain ⟨-,-,rfl⟩ := insert_eq_ok_iff.mp hins
    exact ih hrest hsame (hpart.add hfound)

theorem Applies.lookup_eq_of_perm {r s t : Registry} {es fs : List CatalogEntry}
    (hs : r.Applies es s) (ht : r.Applies fs t) (hperm : es.Perm fs)
    (hdigit : ∀ e ∈ es, Text.endsIn Char.isDigit e.symbol = false) (symbol : List Char) :
    s.lookup symbol = t.lookup symbol := by
  have hdigit' : ∀ f ∈ fs, Text.endsIn Char.isDigit f.symbol = false := fun f hf =>
    hdigit f (hperm.mem_iff.mpr hf)
  have hrs : r.IsPartOf s := by
    obtain ⟨us,hus,-⟩ := hs.extends
    exact hus.isPartOf
  have hrt : r.IsPartOf t := by
    obtain ⟨us,hus,-⟩ := ht.extends
    exact hus.isPartOf
  have hst := hs.isPartOf ht hdigit' (fun e he => hperm.mem_iff.mp he) (fun _ => rfl) hrt
  have hts := ht.isPartOf hs hdigit (fun f hf => hperm.mem_iff.mpr hf) (fun _ => rfl) hrs
  exact hst.lookup_eq hts symbol

/-- Reordering a catalog can make it fail, but it cannot make its units different ones. -/
theorem reordered_catalog_agrees {es fs : List CatalogEntry} (hperm : es.Perm fs)
    (hdigit : ∀ e ∈ es, Text.endsIn Char.isDigit e.symbol = false) (r : Registry) :
    (∀ s t, (r.applyAll es).result = .ok s → (r.applyAll fs).result = .ok t →
      ∀ symbol, s.lookup symbol = t.lookup symbol) ∧
    ∀ a b, Catalog.read a = some es → Catalog.read b = some fs →
      ∀ s n, (r.load a).result = .ok (s,n) →
        (∃ fault, (r.load b).result = .error fault) ∨
          ∃ t, (r.load b).result = .ok (t,n) ∧ ∀ symbol, s.lookup symbol = t.lookup symbol := by
  constructor
  · intro s t hs ht symbol
    have hsame := applyAll_eq_ok_iff.mp ht
    exact (applyAll_eq_ok_iff.mp hs).lookup_eq_of_perm hsame hperm hdigit symbol
  · intro a b ha hb s n hs
    obtain ⟨has,hn⟩ := (load_eq_ok_iff_applies ha).mp hs
    cases h : (r.load b).result with
    | error fault => exact .inl ⟨fault,rfl⟩
    | ok p =>
      obtain ⟨t,m⟩ := p
      obtain ⟨hbt,hm⟩ := (load_eq_ok_iff_applies hb).mp h
      have hcount : m = n := by rw [hm,hn,hperm.length_eq]
      rw [hcount]
      exact .inr ⟨t,rfl,has.lookup_eq_of_perm hbt hperm hdigit⟩

/-- The speed has to come last; the other two may change places. -/
theorem reordered_catalog_agrees_furlong :
    let furlong : CatalogEntry := ⟨"furlong".toList,some "201.168 m".toList,none,none,none⟩
    let fortnight : CatalogEntry := ⟨"fortnight".toList,some "14 d".toList,none,none,none⟩
    let speed : CatalogEntry :=
      ⟨"snail".toList,some "1 furlong/fortnight".toList,none,none,none⟩
    ∃ s t, (builtin.applyAll [furlong,fortnight,speed]).result = .ok s ∧
      (builtin.applyAll [fortnight,furlong,speed]).result = .ok t ∧
      s.lookup "snail".toList = t.lookup "snail".toList := by
  intro furlong fortnight speed
  obtain ⟨s,hs⟩ : ∃ s, (builtin.applyAll [furlong,fortnight,speed]).result = .ok s :=
    Outcome.exists_eq_ok (by decide +kernel)
  obtain ⟨t,ht⟩ : ∃ t, (builtin.applyAll [fortnight,furlong,speed]).result = .ok t :=
    Outcome.exists_eq_ok (by decide +kernel)
  have hperm : [furlong,fortnight,speed].Perm [fortnight,furlong,speed] := .swap ..
  have h := reordered_catalog_agrees hperm (by decide) builtin
  exact ⟨s,t,hs,ht,h.1 s t hs ht _⟩

-- With a digit at the end, a definition is cut in another way before the symbol is known.
example :
    let s2 : CatalogEntry := ⟨"s2".toList,none,some 5.0,none,some .length⟩
    let area : CatalogEntry := ⟨"patch".toList,some "1 s2".toList,none,none,none⟩
    let dimension (es : List CatalogEntry) :=
      ((builtin.applyAll es).result.toOption.bind (·.lookup "patch".toList)).map Entry.dimension
    dimension [s2,area] = some ⟨1,0,0,0,0⟩ ∧ dimension [area,s2] = some ⟨0,0,2,0,0⟩ := by
  decide +kernel

end Registry
end Mensura
