import Mensura.Proofs.Registry.Soundness

/-! Loading a catalog is a transaction. The entries are applied one after the other, each to the
registry that those before it have left. If all of them succeed, the last of these registries is
committed; the first one that fails gives the error, and leaves no trace of those before it. -/
namespace Mensura

namespace Registry

/-- Every entry succeeds on what those before it have made of the registry. -/
inductive Applies : Registry → List CatalogEntry → Registry → Prop
  | nil (r : Registry) : Applies r [] r
  | cons {r s t : Registry} {e : CatalogEntry} {es : List CatalogEntry}
      (he : (e.apply r).result = .ok s) (hes : Applies s es t) : Applies r (e::es) t

/-- The entries up to some of them succeed, and this one does not. -/
def FailsAt (r : Registry) (before : List CatalogEntry) (e : CatalogEntry)
    (fault : RegistryError) : Prop :=
  ∃ s, r.Applies before s ∧ (e.apply s).result = .error fault

theorem applies_append_iff {r t : Registry} {es fs : List CatalogEntry} :
    r.Applies (es ++ fs) t ↔ ∃ s, r.Applies es s ∧ s.Applies fs t := by
  constructor
  · intro h
    induction es generalizing r with
    | nil => exact ⟨r,.nil r,h⟩
    | cons e es ih =>
      cases h with
      | cons he hes =>
        obtain ⟨s,hs,ht⟩ := ih hes
        exact ⟨s,.cons he hs,ht⟩
  · rintro ⟨s,hs,ht⟩
    induction hs with
    | nil => exact ht
    | cons he _ ih => exact .cons he (ih ht)

/-- What succeeds has added units, each under the symbol of its entry. -/
theorem Applies.extends {r s : Registry} {es : List CatalogEntry} (h : r.Applies es s) :
    ∃ us, r.Extends us s ∧ us.map Entry.symbol = (es.map CatalogEntry.symbol).reverse := by
  induction h with
  | nil r => exact ⟨[],.refl,rfl⟩
  | @cons r s t e es he _ ih =>
    obtain ⟨u,hsymbol,-,hu⟩ := CatalogEntry.insert_of_apply he
    obtain ⟨us,hus,hsymbols⟩ := ih
    have hext := (extends_of_insert hu).trans hus
    exact ⟨us ++ [u],hext,by simp [hsymbol,hsymbols]⟩

/-- No entry that succeeds had been registered before. -/
theorem Applies.lookup_eq_none {r s : Registry} {es : List CatalogEntry} (h : r.Applies es s)
    {e : CatalogEntry} (he : e ∈ es) : r.lookup e.symbol = none := by
  obtain ⟨before,rest,rfl⟩ := List.append_of_mem he
  obtain ⟨t,hbefore,hrest⟩ := applies_append_iff.mp h
  obtain ⟨us,hus,-⟩ := hbefore.extends
  cases hrest with
  | cons he' _ =>
    obtain ⟨u,hsymbol,-,hu⟩ := CatalogEntry.insert_of_apply he'
    have hnew : t.knows e.symbol = false := hsymbol ▸ (insert_eq_ok_iff.mp hu).2.1
    by_contra hne
    obtain ⟨v,hv⟩ := Option.ne_none_iff_exists'.mp hne
    have hknows := knows_of_lookup (hus.lookup_eq hv)
    simp [hnew] at hknows

theorem knows_of_insert {r s : Registry} {e : Entry} (h : (r.insert e).result = .ok s) :
    s.knows e.symbol = true := by
  obtain ⟨-,-,rfl⟩ := insert_eq_ok_iff.mp h
  simp [knows,lookup_add]

theorem insert_of_knows {r : Registry} {e : Entry} (hfit : e.fault? = none)
    (hknown : r.knows e.symbol = true) :
    (r.insert e).result = .error (.duplicateSymbol e.symbol) := by
  simp [insert,hfit,hknown]

theorem applyAll_of_ok {r s : Registry} {e : CatalogEntry} (he : (e.apply r).result = .ok s)
    (es : List CatalogEntry) : (r.applyAll (e::es)).result = (s.applyAll es).result := by
  rw [applyAll_cons,Outcome.result_bind,Outcome.result_reportError,he]
  rfl

theorem applyAll_of_error {r : Registry} {e : CatalogEntry} {fault : RegistryError}
    (he : (e.apply r).result = .error fault) (es : List CatalogEntry) :
    (r.applyAll (e::es)).result = .error fault := by
  rw [applyAll_cons,Outcome.result_bind,Outcome.result_reportError,he]
  rfl

theorem applyAll_eq_ok_iff {r t : Registry} {es : List CatalogEntry} :
    (r.applyAll es).result = .ok t ↔ r.Applies es t := by
  constructor
  · intro h
    induction es generalizing r with
    | nil =>
      cases h
      exact .nil _
    | cons e es ih =>
      cases he : (e.apply r).result with
      | error fault => simp [applyAll_of_error he] at h
      | ok s =>
        rw [applyAll_of_ok he] at h
        exact .cons he (ih h)
  · intro h
    induction h with
    | nil => rfl
    | cons he hes ih => exact (applyAll_of_ok he _).trans ih

theorem applyAll_eq_error_iff {r : Registry} {es : List CatalogEntry} {fault : RegistryError} :
    (r.applyAll es).result = .error fault ↔
      ∃ before e rest, es = before ++ e::rest ∧ r.FailsAt before e fault := by
  constructor
  · intro h
    induction es generalizing r with
    | nil => cases h
    | cons e es ih =>
      cases he : (e.apply r).result with
      | error fault' =>
        rw [applyAll_of_error he] at h
        cases h
        exact ⟨[],e,es,rfl,r,.nil r,he⟩
      | ok s =>
        rw [applyAll_of_ok he] at h
        obtain ⟨before,f,rest,rfl,t,ht,hf⟩ := ih h
        exact ⟨e::before,f,rest,rfl,t,.cons he ht,hf⟩
  · rintro ⟨before,e,rest,rfl,s,hs,he⟩
    induction hs with
    | nil => exact applyAll_of_error he rest
    | cons hf _ ih =>
      rw [List.cons_append,applyAll_of_ok hf]
      exact ih he

/-- Whatever goes wrong goes wrong in an entry. -/
theorem load_eq_error_iff {r : Registry} {text : List Char} {es : List CatalogEntry}
    (hread : Catalog.read text = some es) {fault : RegistryError} :
    (r.load text).result = .error fault ↔ (r.applyAll es).result = .error fault := by
  simp only [load,hread,Outcome.result_bind]
  cases (r.applyAll es).result <;> simp [Except.bind]

theorem load_eq_ok_iff_applies {r s : Registry} {text : List Char} {es : List CatalogEntry}
    (hread : Catalog.read text = some es) {n : Nat} :
    (r.load text).result = .ok (s,n) ↔ r.Applies es s ∧ n = es.length := by
  rw [load_eq_ok_iff]
  constructor
  · rintro ⟨fs,hfs,hs,hn⟩
    have hsame : es = fs := Option.some.inj (hread.symm.trans hfs)
    subst fs
    exact ⟨applyAll_eq_ok_iff.mp hs,hn⟩
  · rintro ⟨hs,hn⟩
    exact ⟨es,hread,applyAll_eq_ok_iff.mpr hs,hn⟩

/-- Two catalogs in one file load like the two in turn. -/
theorem load_append_eq_ok_iff {r s : Registry} {text a b : List Char} {es fs : List CatalogEntry}
    (hread : Catalog.read text = some (es ++ fs)) (ha : Catalog.read a = some es)
    (hb : Catalog.read b = some fs) {n : Nat} :
    (r.load text).result = .ok (s,n) ↔
      ∃ t m k, (r.load a).result = .ok (t,m) ∧ (t.load b).result = .ok (s,k) ∧ n = m + k := by
  simp only [load_eq_ok_iff_applies hread,load_eq_ok_iff_applies ha,load_eq_ok_iff_applies hb]
  constructor
  · rintro ⟨hall,hn⟩
    obtain ⟨t,ht,hs⟩ := applies_append_iff.mp hall
    refine ⟨t,es.length,fs.length,⟨ht,rfl⟩,⟨hs,rfl⟩,?_⟩
    rw [hn,List.length_append]
  · rintro ⟨t,m,k,⟨ht,hm⟩,⟨hs,hk⟩,hn⟩
    refine ⟨applies_append_iff.mpr ⟨t,ht,hs⟩,?_⟩
    rw [hn,hm,hk,List.length_append]

/-- A load succeeds exactly if every entry does, on the registry that those before it have left;
otherwise it fails as the first of them that does, and none of the others is registered. -/
theorem load_commits_all_or_nothing {text : List Char} {es : List CatalogEntry}
    (hread : Catalog.read text = some es) (r : Registry) :
    (∀ s n, (r.load text).result = .ok (s,n) ↔ r.Applies es s ∧ n = es.length) ∧
    (∀ s n, (r.load text).result = .ok (s,n) → (Change.load text).after r = s) ∧
    (∀ fault, (r.load text).result = .error fault ↔
      ∃ before e rest, es = before ++ e::rest ∧ r.FailsAt before e fault) ∧
    (∀ before e rest fault, es = before ++ e::rest → r.FailsAt before e fault →
      (∀ symbol, ((Change.load text).after r).lookup symbol = r.lookup symbol) ∧
      ∀ f ∈ before, ((Change.load text).after r).lookup f.symbol = none) ∧
    ∀ as bs a b, es = as ++ bs → Catalog.read a = some as → Catalog.read b = some bs →
      ∀ s n, (r.load text).result = .ok (s,n) ↔
        ∃ t m k, (r.load a).result = .ok (t,m) ∧ (t.load b).result = .ok (s,k) ∧ n = m + k := by
  have herror : ∀ fault, (r.load text).result = .error fault ↔
      ∃ before e rest, es = before ++ e::rest ∧ r.FailsAt before e fault := fun fault =>
    (load_eq_error_iff hread).trans applyAll_eq_error_iff
  refine ⟨fun s n => load_eq_ok_iff_applies hread,fun s n hs => Change.after_eq_of_apply hs,
    herror,?_,?_⟩
  · intro before e rest fault hes hfail
    have hload := (herror fault).mpr ⟨before,e,rest,hes,hfail⟩
    have hafter : (Change.load text).after r = r := Change.after_of_error hload
    obtain ⟨s,hs,-⟩ := hfail
    rw [hafter]
    exact ⟨fun symbol => rfl,fun f hf => hs.lookup_eq_none hf⟩
  · rintro as bs a b rfl ha hb s n
    exact load_append_eq_ok_iff hread ha hb

/-- The second unit takes the symbol that the first one would have had. -/
theorem load_commits_nothing_of_clash :
    let furlong : CatalogEntry := ⟨"furlong".toList,some "201.168 m".toList,none,none,none⟩
    let clash : CatalogEntry := ⟨"furlong".toList,none,some 200.0,none,some .length⟩
    let text := "[[unit]]\nsymbol = 'furlong'\ndefinition = '201.168 m'\n
      [[unit]]\nsymbol = 'furlong'\nfactor = 200.0\ndimension = [1, 0, 0, 0, 0]\n".toList
    Catalog.read text = some [furlong,clash] ∧
      (builtin.load text).result = .error (.duplicateSymbol "furlong".toList) ∧
      ((Change.load text).after builtin).lookup "furlong".toList = none := by
  intro furlong clash text
  have hread : Catalog.read text = some [furlong,clash] := by decide +kernel
  obtain ⟨s,hs⟩ : ∃ s, (furlong.apply builtin).result = .ok s :=
    Outcome.exists_eq_ok (by decide +kernel)
  have hclash : (clash.apply s).result = .error (.duplicateSymbol "furlong".toList) := by
    obtain ⟨u,hu,-,hins⟩ := CatalogEntry.insert_of_apply hs
    have hknown : s.knows furlong.symbol = true := hu ▸ knows_of_insert hins
    exact insert_of_knows (e := ⟨_,.length,.scale 200.0⟩) (by decide +kernel) hknown
  have hfail : builtin.FailsAt [furlong] clash (.duplicateSymbol "furlong".toList) :=
    ⟨s,.cons hs (.nil s),hclash⟩
  have h := load_commits_all_or_nothing hread builtin
  refine ⟨hread,(h.2.2.1 _).mpr ⟨[furlong],clash,[],rfl,hfail⟩,?_⟩
  exact (h.2.2.2.1 [furlong] clash [] _ rfl hfail).2 furlong (by simp)

end Registry
end Mensura
