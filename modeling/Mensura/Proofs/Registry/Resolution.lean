import Mathlib.Data.List.Forall2
import Mensura.Proofs.Dimension.Arithmetic
import Mensura.Registry.Basic

/-! What signatures stand for, said without reading anything: a unit with an offset stands for
itself, and other terms for the product of powers of units, provided that no exponent leaves 32
bits on the way and that the factor can be divided by. Resolving finds exactly this. -/
namespace Mensura

/-- A power of a unit. -/
structure UnitPower where
  unit : Entry
  power : Int

namespace UnitPower

def dimension (u : UnitPower) : Dimension := u.unit.dimension.pow u.power

def factor (u : UnitPower) : Float := Scalar.powInt u.unit.conversion.factor u.power

/-- The exponents of the product, which are not bounded. -/
def totalDimension (us : List UnitPower) : Dimension := (us.map dimension).prod

/-- The factors are multiplied from the left, starting with one. -/
def totalFactor (us : List UnitPower) : Float := (us.map factor).foldl (· * ·) Scalar.one

/-- The powers and the products of the first of them have exponents of 32 bits. -/
def StaysInRange (us : List UnitPower) : Prop :=
  (∀ u ∈ us, u.dimension.Fits) ∧ ∀ k, (totalDimension (us.take k)).Fits

@[simp] theorem totalDimension_nil : totalDimension [] = .dimensionless := rfl
@[simp] theorem totalDimension_cons (u : UnitPower) (us : List UnitPower) :
    totalDimension (u::us) = u.dimension * totalDimension us := List.prod_cons

end UnitPower

namespace Registry
open UnitPower

/-- The term is a power of a registered unit without an offset. -/
def IsScaled (r : Registry) (t : Signature.Term) (u : UnitPower) : Prop :=
  r.lookup t.symbol = some u.unit ∧ u.unit.conversion.isAffine = false ∧ u.power = t.power

inductive Yields (r : Registry) : List Signature.Term → Resolution → Prop
  | offset {s : List Char} {e : Entry} (he : r.lookup s = some e)
      (ha : e.conversion.isAffine = true) : Yields r [⟨s,1⟩] ⟨e.dimension,e.conversion⟩
  | product {ts : List Signature.Term} {us : List UnitPower}
      (hus : List.Forall₂ r.IsScaled ts us) (hrange : StaysInRange us)
      (hf : isUsable (totalFactor us) = true) :
      Yields r ts ⟨totalDimension us,.scale (totalFactor us)⟩

/-- No signature at all means no unit. -/
def Means (r : Registry) (signature : List Char) (c : Resolution) : Prop :=
  (signature = [] ∧ c = .identity) ∨
    ∃ ts, Signature.read r.knows signature = .ok ts ∧ r.Yields ts c

/-- The terms are powers of registered units without an offset, and no exponent leaves 32 bits. -/
def AreGood (r : Registry) (ts : List Signature.Term) (us : List UnitPower) : Prop :=
  List.Forall₂ r.IsScaled ts us ∧ StaysInRange us

/-- Good terms after others of dimension `d`. -/
def AreGoodAfter (r : Registry) (d : Dimension) (ts : List Signature.Term)
    (us : List UnitPower) : Prop :=
  List.Forall₂ r.IsScaled ts us ∧ (∀ u ∈ us, u.dimension.Fits) ∧
    ∀ k, (d * totalDimension (us.take k)).Fits

theorem areGood_iff {r : Registry} {ts : List Signature.Term} {us : List UnitPower} :
    r.AreGood ts us ↔ r.AreGoodAfter .dimensionless ts us := by
  simp [AreGood,AreGoodAfter,StaysInRange]

theorem areGoodAfter_nil_iff {r : Registry} {d : Dimension} {us : List UnitPower} :
    r.AreGoodAfter d [] us ↔ us = [] ∧ d.Fits := by
  rw [AreGoodAfter,List.forall₂_nil_left_iff]
  refine and_congr_right fun hus => ?_
  simp [hus]

theorem areGoodAfter_cons_iff {r : Registry} {d : Dimension} {t : Signature.Term}
    {ts : List Signature.Term} {us : List UnitPower} :
    r.AreGoodAfter d (t::ts) us ↔ ∃ u vs, us = u::vs ∧ d.Fits ∧ r.IsScaled t u ∧
      u.dimension.Fits ∧ r.AreGoodAfter (d * u.dimension) ts vs := by
  constructor
  · rintro ⟨hus,hfits,hpart⟩
    obtain ⟨u,vs,hu,hvs,rfl⟩ := List.forall₂_cons_left_iff.mp hus
    obtain ⟨hfu,hfits⟩ := List.forall_mem_cons.mp hfits
    refine ⟨u,vs,rfl,by simpa using hpart 0,hu,hfu,hvs,hfits,fun k => ?_⟩
    simpa [mul_assoc] using hpart (k + 1)
  · rintro ⟨u,vs,rfl,hd,hu,hfu,hvs,hfits,hpart⟩
    refine ⟨.cons hu hvs,List.forall_mem_cons.mpr ⟨hfu,hfits⟩,fun k => ?_⟩
    cases k with
    | zero => simpa using hd
    | succ k => simpa [mul_assoc] using hpart k

theorem product_cons_of_isScaled {r : Registry} {t : Signature.Term} {u : UnitPower}
    (hu : r.IsScaled t u) {d : Dimension} (hfits : u.dimension.Fits)
    (hd : (d * u.dimension).Fits) (signature : List Char) (ts : List Signature.Term) (f : Float) :
    r.product signature (t::ts) d f =
      r.product signature ts (d * u.dimension) (f * u.factor) := by
  obtain ⟨e,n⟩ := u
  obtain ⟨he,ha,rfl⟩ := hu
  have hsome : (e.dimension.power? t.power).bind d.product? =
      some (d * e.dimension.pow t.power) :=
    Option.bind_eq_some_iff.mpr ⟨_,Dimension.power?_eq_some_iff.mpr ⟨hfits,rfl⟩,
      Dimension.product?_eq_some_iff.mpr ⟨hd,rfl⟩⟩
  simp only [product,he,ha,hsome,Bool.false_eq_true,if_false]
  rfl

theorem product_cons_eq_ok_iff {r : Registry} {signature : List Char} {t : Signature.Term}
    {ts : List Signature.Term} {d : Dimension} {f : Float} {p : Dimension × Float} :
    r.product signature (t::ts) d f = .ok p ↔
      ∃ u, r.IsScaled t u ∧ u.dimension.Fits ∧ (d * u.dimension).Fits ∧
        r.product signature ts (d * u.dimension) (f * u.factor) = .ok p := by
  constructor
  · intro h
    simp only [product] at h
    split at h
    · simp at h
    · rename_i e he
      split at h
      · simp at h
      · rename_i ha
        split at h
        · simp at h
        · rename_i d' hd
          obtain ⟨b,hb,hd'⟩ := Option.bind_eq_some_iff.mp hd
          obtain ⟨hfb,rfl⟩ := Dimension.power?_eq_some_iff.mp hb
          obtain ⟨hfd,rfl⟩ := Dimension.product?_eq_some_iff.mp hd'
          exact ⟨⟨e,t.power⟩,⟨he,by simpa using ha,rfl⟩,hfb,hfd,h⟩
  · rintro ⟨u,hu,hfb,hfd,h⟩
    rwa [product_cons_of_isScaled hu hfb hfd]

/-- The loop over the terms keeps the invariant that the exponents so far fit. -/
theorem product_eq_ok_iff {r : Registry} {signature : List Char} {ts : List Signature.Term}
    {d : Dimension} (hd : d.Fits) {f : Float} {p : Dimension × Float} :
    r.product signature ts d f = .ok p ↔ ∃ us, r.AreGoodAfter d ts us ∧
      p = (d * totalDimension us,(us.map factor).foldl (· * ·) f) := by
  induction ts generalizing d f with
  | nil => simp [product,areGoodAfter_nil_iff,hd,eq_comm]
  | cons t ts ih =>
    rw [product_cons_eq_ok_iff]
    constructor
    · rintro ⟨u,hu,hfu,hfd,hp⟩
      obtain ⟨us,hus,rfl⟩ := (ih hfd).mp hp
      refine ⟨u::us,areGoodAfter_cons_iff.mpr ⟨u,us,rfl,hd,hu,hfu,hus⟩,?_⟩
      simp [mul_assoc]
    · rintro ⟨_,hus,rfl⟩
      obtain ⟨u,us,rfl,-,hu,hfu,hus⟩ := areGoodAfter_cons_iff.mp hus
      have hfd : (d * u.dimension).Fits := by simpa using hus.2.2 0
      refine ⟨u,hu,hfu,hfd,(ih hfd).mpr ⟨us,hus,?_⟩⟩
      simp [mul_assoc]

theorem offsetUnit?_eq_some_iff {r : Registry} {ts : List Signature.Term} {e : Entry} :
    r.offsetUnit? ts = some e ↔
      ∃ s, ts = [⟨s,1⟩] ∧ r.lookup s = some e ∧ e.conversion.isAffine = true := by
  constructor
  · intro h
    unfold offsetUnit? at h
    split at h
    · rename_i t
      obtain ⟨he,hp⟩ := Option.filter_eq_some_iff.mp h
      simp only [Bool.and_eq_true,decide_eq_true_eq] at hp
      obtain ⟨s,n⟩ := t
      obtain ⟨ha,rfl⟩ := hp
      exact ⟨s,rfl,he,ha⟩
    · simp at h
  · rintro ⟨s,rfl,he,ha⟩
    simp [offsetUnit?,he,ha,Option.filter]

theorem terms_eq_ok_iff {r : Registry} {signature : List Char} {ts : List Signature.Term} :
    r.terms signature = .ok ts ↔ Signature.read r.knows signature = .ok ts :=
  Outcome.mapError_eq_ok_iff

theorem Yields.eq_of_offset {r : Registry} {s : List Char} {e : Entry} {c : Resolution}
    (he : r.lookup s = some e) (ha : e.conversion.isAffine = true) (h : r.Yields [⟨s,1⟩] c) :
    c = ⟨e.dimension,e.conversion⟩ := by
  cases h with
  | offset he' _ =>
    cases he.symm.trans he'
    rfl
  | product hus _ _ =>
    obtain ⟨u,_,⟨he',ha',_⟩,_,_⟩ := List.forall₂_cons_left_iff.mp hus
    cases he.symm.trans he'
    simp [ha] at ha'

theorem IsScaled.unique {r : Registry} {t : Signature.Term} {u v : UnitPower}
    (hu : r.IsScaled t u) (hv : r.IsScaled t v) : u = v := by
  obtain ⟨e,m⟩ := u
  obtain ⟨f,n⟩ := v
  obtain ⟨he,-,hm⟩ := hu
  obtain ⟨hf,-,hn⟩ := hv
  have hunit : e = f := Option.some.inj (he.symm.trans hf)
  have hpower : m = n := hm.trans hn.symm
  rw [hunit,hpower]

theorem eq_of_areScaled {r : Registry} {ts : List Signature.Term} {us vs : List UnitPower}
    (hus : List.Forall₂ r.IsScaled ts us) (hvs : List.Forall₂ r.IsScaled ts vs) : us = vs :=
  List.right_unique_forall₂' (fun _ _ _ hu hv => hu.unique hv) hus hvs

/-- Terms stand for one thing at most. -/
theorem Yields.unique {r : Registry} {ts : List Signature.Term} {c d : Resolution}
    (hc : r.Yields ts c) (hd : r.Yields ts d) : c = d := by
  cases hc with
  | offset he ha => exact (hd.eq_of_offset he ha).symm
  | product hus hrange hf =>
    cases hd with
    | offset he ha => exact (Yields.product hus hrange hf).eq_of_offset he ha
    | product hvs _ _ => rw [eq_of_areScaled hus hvs]

theorem resolve_eq_ok_iff {r : Registry} {signature : List Char} {c : Resolution} :
    (r.resolve signature).result = .ok c ↔
      ∃ ts, Signature.read r.knows signature = .ok ts ∧ r.Yields ts c := by
  simp only [resolve,Outcome.bind_eq_ok_iff,Outcome.result_ofExcept,terms_eq_ok_iff]
  refine exists_congr fun ts => and_congr_right fun _ => ?_
  cases h : r.offsetUnit? ts with
  | some e =>
    obtain ⟨s,rfl,he,ha⟩ := offsetUnit?_eq_some_iff.mp h
    simp only [Outcome.bind_eq_ok_iff,Outcome.result_report,Outcome.result_pure,Except.ok.injEq]
    constructor
    · rintro ⟨_,-,rfl⟩
      exact .offset he ha
    · intro hc
      exact ⟨(),trivial,(hc.eq_of_offset he ha).symm⟩
  | none =>
    simp only [Outcome.bind_eq_ok_iff,Outcome.result_ofExcept,
      product_eq_ok_iff Dimension.fits_dimensionless,Dimension.dimensionless_mul]
    constructor
    · rintro ⟨_,⟨us,hgood,rfl⟩,hc⟩
      split at hc
      · rename_i hf
        obtain ⟨_,-,hc⟩ := Outcome.bind_eq_ok_iff.mp hc
        cases hc
        obtain ⟨hus,hrange⟩ := areGood_iff.mpr hgood
        exact .product hus hrange hf
      · simp at hc
    · intro hc
      cases hc with
      | offset he ha => simp [offsetUnit?_eq_some_iff.mpr ⟨_,rfl,he,ha⟩] at h
      | product hus hrange hf =>
        refine ⟨_,⟨_,areGood_iff.mp ⟨hus,hrange⟩,rfl⟩,?_⟩
        exact (congrArg Outcome.result (if_pos hf)).trans rfl

theorem read_nil (known : List Char → Bool) : Signature.read known [] = .error .noUnit := rfl

theorem ne_nil_of_read {known : List Char → Bool} {signature : List Char}
    {ts : List Signature.Term} (h : Signature.read known signature = .ok ts) : signature ≠ [] := by
  rintro rfl
  cases h

theorem measure_eq_ok_iff {r : Registry} {text : List Char} {x : Float} {c : Resolution} :
    (r.measure text).result = .ok (x,c) ↔
      ∃ signature, Measurement.split text = .ok (x,signature) ∧ r.Means signature c := by
  simp only [measure,Outcome.bind_eq_ok_iff,Outcome.result_ofExcept,Prod.exists]
  constructor
  · rintro ⟨y,signature,hs,h⟩
    split at h
    · rename_i hn
      cases h
      exact ⟨signature,hs,.inl ⟨hn,rfl⟩⟩
    · obtain ⟨c',hc,h⟩ := Outcome.bind_eq_ok_iff.mp h
      cases h
      exact ⟨signature,hs,.inr (resolve_eq_ok_iff.mp hc)⟩
  · rintro ⟨signature,hs,h⟩
    refine ⟨x,signature,hs,?_⟩
    rcases h with ⟨rfl,rfl⟩ | ⟨ts,ht,hc⟩
    · rfl
    · rw [if_neg (ne_nil_of_read ht),Outcome.bind_eq_ok_iff]
      exact ⟨c,resolve_eq_ok_iff.mpr ⟨ts,ht,hc⟩,rfl⟩

end Registry
end Mensura
