import Mensura.Proofs.Measurement.Split
import Mensura.Proofs.Registry.Soundness
import Mensura.Proofs.Signature.Faults

/-! Why a text is not read as a quantity. What is wrong with the number comes before what is wrong
with the signature as such, and this before the units; of the units the first one that is wrong
counts, and the dimension is looked at last. -/
namespace Mensura.Registry
open UnitPower

/-- What is wrong with a term that follows terms of dimension `d`. -/
inductive StopsAt (r : Registry) (signature : List Char) (d : Dimension) (t : Signature.Term) :
    ReadError → Prop
  | unknown (h : r.lookup t.symbol = none) : StopsAt r signature d t (.unknownUnit t.symbol)
  | offset {e : Entry} (he : r.lookup t.symbol = some e) (ha : e.conversion.isAffine = true) :
      StopsAt r signature d t (.affineInCompound t.symbol)
  | overflow {u : UnitPower} (hu : r.IsScaled t u)
      (hover : ¬(u.dimension.Fits ∧ (d * u.dimension).Fits)) :
      StopsAt r signature d t (.malformedSignature signature .exponentOverflow)

/-- Terms that stand for nothing, and why: because of the first one that is not good, or, if all
are good, because of their factor. An offset is only wrong in company or to another power. -/
inductive Refuses (r : Registry) (signature : List Char) (ts : List Signature.Term) :
    ReadError → Prop
  | term {before after : List Signature.Term} {t : Signature.Term} {us : List UnitPower}
      {e : ReadError} (hts : ts = before ++ t::after) (hgood : r.AreGood before us)
      (hstop : r.StopsAt signature (totalDimension us) t e)
      (hoffset : e = .affineInCompound t.symbol → ts.length ≠ 1 ∨ t.power ≠ 1) :
      Refuses r signature ts e
  | factor {us : List UnitPower} (hgood : r.AreGood ts us)
      (hf : isUsable (totalFactor us) = false) :
      Refuses r signature ts (.malformedSignature signature .factorOutOfRange)

/-- The text is a number and a signature with these terms. -/
def HasTerms (r : Registry) (text signature : List Char) (ts : List Signature.Term) : Prop :=
  (∃ x, Measurement.split text = .ok (x,signature)) ∧ Signature.read r.knows signature = .ok ts

/-- Texts that are not quantities of dimension `d`, and why. -/
inductive Rejects (r : Registry) (d : Dimension) (text : List Char) : ReadError → Prop
  | empty (hblank : ∀ c ∈ text, Text.isBlank c = true) : Rejects r d text .empty
  | number {word : List Char} (hvisible : ¬∀ c ∈ text, Text.isBlank c = true)
      (hword : (Measurement.spanNumber (Text.trim text)).1 = word)
      (hread : Measurement.readGrouped? word = none) : Rejects r d text (.invalidNumber word)
  | signature {x : Float} {signature : List Char} {fault : Signature.Fault}
      (hsplit : Measurement.split text = .ok (x,signature)) (hne : signature ≠ [])
      (hread : Signature.read r.knows signature = .error fault) :
      Rejects r d text (.malformedSignature signature fault)
  | terms {signature : List Char} {ts : List Signature.Term} {e : ReadError}
      (hts : r.HasTerms text signature ts) (he : r.Refuses signature ts e) : Rejects r d text e
  | dimension {x : Float} {signature : List Char} {c : Resolution}
      (hsplit : Measurement.split text = .ok (x,signature)) (hc : r.Means signature c)
      (hne : c.dimension ≠ d) : Rejects r d text (.dimensionMismatch d c.dimension)

section
variable {r : Registry} {signature : List Char} {ts : List Signature.Term} {t : Signature.Term}
  {d : Dimension} {f : Float} {e : ReadError}

theorem IsScaled.isAffine_eq_false {u : UnitPower} (hu : r.IsScaled t u) {v : Entry}
    (hv : r.lookup t.symbol = some v) : v.conversion.isAffine = false := by
  cases hu.1.symm.trans hv
  exact hu.2.1

theorem StopsAt.product_eq (h : r.StopsAt signature d t e) :
    r.product signature (t::ts) d f = .error e := by
  cases h with
  | unknown h => simp [product,h]
  | offset he ha => simp [product,he,ha]
  | @overflow u hu hover =>
    obtain ⟨v,n⟩ := u
    obtain ⟨he,ha,rfl⟩ := hu
    have hnone : (v.dimension.power? t.power).bind d.product? = none := by
      by_contra hne
      obtain ⟨b,hb⟩ := Option.ne_none_iff_exists'.mp hne
      obtain ⟨c,hc,hd⟩ := Option.bind_eq_some_iff.mp hb
      obtain ⟨hfits,rfl⟩ := Dimension.power?_eq_some_iff.mp hc
      exact hover ⟨hfits,(Dimension.product?_eq_some_iff.mp hd).1⟩
    simp [product,he,ha,hnone]

theorem stopsAt_or_isScaled (r : Registry) (signature : List Char) (d : Dimension)
    (t : Signature.Term) : (∃ e, r.StopsAt signature d t e) ∨
      ∃ u, r.IsScaled t u ∧ u.dimension.Fits ∧ (d * u.dimension).Fits := by
  cases he : r.lookup t.symbol with
  | none => exact .inl ⟨_,.unknown he⟩
  | some e =>
    cases ha : e.conversion.isAffine with
    | true => exact .inl ⟨_,.offset he ha⟩
    | false =>
      have hu : r.IsScaled t ⟨e,t.power⟩ := ⟨he,ha,rfl⟩
      by_cases hfits : (UnitPower.dimension ⟨e,t.power⟩).Fits ∧
          (d * UnitPower.dimension ⟨e,t.power⟩).Fits
      · exact .inr ⟨_,hu,hfits⟩
      · exact .inl ⟨_,.overflow hu hfits⟩

-- The dimension and the factor so far are those of the terms before, so both are general in the
-- induction.
/-- The loop over the terms stops at the first one that is not good. -/
theorem product_eq_error_iff (hd : d.Fits) : r.product signature ts d f = .error e ↔
    ∃ before t after us, ts = before ++ t::after ∧ r.AreGoodAfter d before us ∧
      r.StopsAt signature (d * totalDimension us) t e := by
  induction ts generalizing d f with
  | nil => simp [product]
  | cons t ts ih =>
    constructor
    · intro h
      rcases r.stopsAt_or_isScaled signature d t with ⟨e',hstop⟩ | ⟨u,hu,hfits,hfd⟩
      · rw [hstop.product_eq] at h
        cases h
        exact ⟨[],t,ts,[],rfl,areGoodAfter_nil_iff.mpr ⟨rfl,hd⟩,by simpa using hstop⟩
      · rw [product_cons_of_isScaled hu hfits hfd] at h
        obtain ⟨before,t',after,us,rfl,hgood,hstop⟩ := (ih hfd).mp h
        refine ⟨t::before,t',after,u::us,rfl,?_,by simpa [mul_assoc] using hstop⟩
        exact areGoodAfter_cons_iff.mpr ⟨u,us,rfl,hd,hu,hfits,hgood⟩
    · rintro ⟨before,t',after,us,hts,hgood,hstop⟩
      cases before with
      | nil =>
        obtain ⟨rfl,rfl⟩ := List.cons.inj hts
        obtain ⟨rfl,-⟩ := areGoodAfter_nil_iff.mp hgood
        exact StopsAt.product_eq (by simpa using hstop)
      | cons t'' before =>
        obtain ⟨rfl,rfl⟩ := List.cons.inj hts
        obtain ⟨u,vs,rfl,-,hu,hfits,hgood⟩ := areGoodAfter_cons_iff.mp hgood
        have hfd : (d * u.dimension).Fits := by simpa using hgood.2.2 0
        rw [product_cons_of_isScaled hu hfits hfd]
        exact (ih hfd).mpr ⟨before,t',after,vs,rfl,hgood,by simpa [mul_assoc] using hstop⟩

/-- A unit with an offset that is not resolved by itself is in company or has another power. -/
theorem StopsAt.of_offsetUnit?_eq_none {before after : List Signature.Term}
    (hstop : r.StopsAt signature d t e) (h : r.offsetUnit? (before ++ t::after) = none)
    (he : e = .affineInCompound t.symbol) : (before ++ t::after).length ≠ 1 ∨ t.power ≠ 1 := by
  by_contra halone
  push Not at halone
  obtain ⟨hlength,hpower⟩ := halone
  have hnil : before = [] ∧ after = [] := by
    rw [← List.length_eq_zero_iff,← List.length_eq_zero_iff]
    simp only [List.length_append,List.length_cons] at hlength
    omega
  obtain ⟨rfl,rfl⟩ := hnil
  cases hstop with
  | offset hlookup ha =>
    obtain ⟨symbol,power⟩ := t
    cases hpower
    have hsome := offsetUnit?_eq_some_iff.mpr ⟨symbol,rfl,hlookup,ha⟩
    simp [hsome] at h
  | unknown | overflow => cases he

theorem Refuses.offsetUnit?_eq_none (h : r.Refuses signature ts e) : r.offsetUnit? ts = none := by
  by_contra hne
  obtain ⟨v,hv⟩ := Option.ne_none_iff_exists'.mp hne
  obtain ⟨s,rfl,hs,ha⟩ := offsetUnit?_eq_some_iff.mp hv
  cases h with
  | @term before after t us _ hts _ hstop hoffset =>
    cases before with
    | nil =>
      cases hts
      cases hstop with
      | unknown hnone => simp [hs] at hnone
      | offset => simpa using hoffset rfl
      | overflow hu => simp [hu.isAffine_eq_false hs] at ha
    | cons t' before => simp at hts
  | factor hgood =>
    obtain ⟨u,_,hu,_⟩ := List.forall₂_cons_left_iff.mp hgood.1
    simp [hu.isAffine_eq_false hs] at ha

/-- The loop over the terms and the look at the factor after it. -/
theorem refuses_iff (h : r.offsetUnit? ts = none) : r.Refuses signature ts e ↔
    r.product signature ts .dimensionless Scalar.one = .error e ∨
    ∃ p, r.product signature ts .dimensionless Scalar.one = .ok p ∧ isUsable p.2 = false ∧
      .malformedSignature signature .factorOutOfRange = e := by
  rw [product_eq_error_iff Dimension.fits_dimensionless]
  simp only [product_eq_ok_iff Dimension.fits_dimensionless,Dimension.dimensionless_mul]
  constructor
  · intro he
    cases he with
    | term hts hgood hstop _ => exact .inl ⟨_,_,_,_,hts,areGood_iff.mp hgood,hstop⟩
    | factor hgood hf => exact .inr ⟨_,⟨_,areGood_iff.mp hgood,rfl⟩,hf,rfl⟩
  · rintro (⟨before,t,after,us,rfl,hgood,hstop⟩ | ⟨_,⟨us,hgood,rfl⟩,hf,rfl⟩)
    · exact .term rfl (areGood_iff.mpr hgood) hstop (hstop.of_offsetUnit?_eq_none h)
    · exact .factor (areGood_iff.mpr hgood) hf

theorem terms_eq_error_iff : r.terms signature = .error e ↔
    ∃ fault, Signature.read r.knows signature = .error fault ∧
      .malformedSignature signature fault = e := Outcome.mapError_eq_error_iff

theorem resolve_eq_error_iff : (r.resolve signature).result = .error e ↔
    (∃ fault, Signature.read r.knows signature = .error fault ∧
      .malformedSignature signature fault = e) ∨
    ∃ ts, Signature.read r.knows signature = .ok ts ∧ r.Refuses signature ts e := by
  simp only [resolve,Outcome.bind_eq_error_iff,Outcome.result_ofExcept,terms_eq_ok_iff,
    terms_eq_error_iff]
  refine or_congr_right (exists_congr fun ts => and_congr_right fun _ => ?_)
  cases h : r.offsetUnit? ts with
  | some v =>
    have hnot : ¬r.Refuses signature ts e := fun he => by simp [he.offsetUnit?_eq_none] at h
    simp [hnot,Except.bind]
  | none =>
    rw [refuses_iff h]
    simp only [Outcome.bind_eq_error_iff,Outcome.result_ofExcept]
    refine or_congr_right (exists_congr fun p => and_congr_right fun _ => ?_)
    cases isUsable p.2 <;> simp [Except.bind]

theorem split_eq_error_iff {text : List Char} : Measurement.split text = .error e ↔
    ((∀ c ∈ text, Text.isBlank c = true) ∧ .empty = e) ∨
    (¬∀ c ∈ text, Text.isBlank c = true) ∧
      Measurement.readGrouped? (Measurement.spanNumber (Text.trim text)).1 = none ∧
      .invalidNumber (Measurement.spanNumber (Text.trim text)).1 = e := by
  rw [← Text.trim_eq_nil_iff]
  by_cases hblank : Text.trim text = []
  · simp [Measurement.split,hblank]
  · rw [Measurement.split_of_ne_nil hblank,Measurement.readParts]
    cases Measurement.readGrouped? (Measurement.spanNumber (Text.trim text)).1 <;> simp [hblank]

theorem measure_eq_error_iff {text : List Char} : (r.measure text).result = .error e ↔
    Measurement.split text = .error e ∨ ∃ x signature,
      Measurement.split text = .ok (x,signature) ∧ signature ≠ [] ∧
        (r.resolve signature).result = .error e := by
  simp only [measure,Outcome.bind_eq_error_iff,Outcome.result_ofExcept,Prod.exists]
  refine or_congr_right (exists_congr fun x => exists_congr fun s => and_congr_right fun _ => ?_)
  by_cases hs : s = []
  · simp [hs]
  · rw [if_neg hs,Outcome.bind_eq_error_iff]
    simp [hs]

theorem read_eq_error_iff {α : Type} [Scalar α] {text : List Char} :
    (r.read d text : Outcome ReadError (Quantity d 1 α)).result = .error e ↔
      (r.measure text).result = .error e ∨ ∃ x c, (r.measure text).result = .ok (x,c) ∧
        c.dimension ≠ d ∧ .dimensionMismatch d c.dimension = e := by
  simp only [read,Outcome.bind_eq_error_iff,Prod.exists]
  refine or_congr_right (exists_congr fun x => exists_congr fun c => and_congr_right fun _ => ?_)
  by_cases hd : c.dimension = d <;> simp [hd]

/-- Reading fails exactly as one of the rejections says. -/
theorem read_eq_error_iff_rejects {α : Type} [Scalar α] {text : List Char} :
    (r.read d text : Outcome ReadError (Quantity d 1 α)).result = .error e ↔
      r.Rejects d text e := by
  rw [read_eq_error_iff,measure_eq_error_iff,split_eq_error_iff]
  simp only [measure_eq_ok_iff,resolve_eq_error_iff]
  constructor
  · rintro ((hnumber | hunit) | hdimension)
    · rcases hnumber with ⟨hblank,rfl⟩ | ⟨hvisible,hread,rfl⟩
      · exact .empty hblank
      · exact .number hvisible rfl hread
    · obtain ⟨x,s,hsplit,hne,⟨fault,hread,rfl⟩ | ⟨ts,hread,he⟩⟩ := hunit
      · exact .signature hsplit hne hread
      · exact .terms ⟨⟨x,hsplit⟩,hread⟩ he
    · obtain ⟨x,c,⟨s,hsplit,hc⟩,hne,rfl⟩ := hdimension
      exact .dimension hsplit hc hne
  · intro h
    cases h with
    | empty hblank => exact .inl (.inl (.inl ⟨hblank,rfl⟩))
    | number hvisible hword hread =>
      cases hword
      exact .inl (.inl (.inr ⟨hvisible,hread,rfl⟩))
    | signature hsplit hne hread => exact .inl (.inr ⟨_,_,hsplit,hne,.inl ⟨_,hread,rfl⟩⟩)
    | @terms s ts _ hts he =>
      obtain ⟨⟨x,hsplit⟩,hread⟩ := hts
      exact .inl (.inr ⟨x,s,hsplit,ne_nil_of_read hread,.inr ⟨ts,hread,he⟩⟩)
    | dimension hsplit hc hne => exact .inr ⟨_,_,⟨_,hsplit,hc⟩,hne,rfl⟩

/-! Which term an error is about. -/

theorem refuses_unknownUnit_iff {symbol : List Char} :
    r.Refuses signature ts (.unknownUnit symbol) ↔ ∃ before n after us,
      ts = before ++ ⟨symbol,n⟩::after ∧ r.AreGood before us ∧ r.lookup symbol = none := by
  constructor
  · intro h
    cases h with
    | @term _ _ t _ _ hts hgood hstop _ =>
      cases hstop with
      | unknown hnone => exact ⟨_,t.power,_,_,hts,hgood,hnone⟩
  · rintro ⟨before,n,after,us,hts,hgood,hnone⟩
    exact .term hts hgood (.unknown hnone) (by simp)

theorem refuses_affineInCompound_iff {symbol : List Char} :
    r.Refuses signature ts (.affineInCompound symbol) ↔ ∃ before n after us v,
      ts = before ++ ⟨symbol,n⟩::after ∧ r.AreGood before us ∧ r.lookup symbol = some v ∧
        v.conversion.isAffine = true ∧ (ts.length ≠ 1 ∨ n ≠ 1) := by
  constructor
  · intro h
    cases h with
    | @term _ _ t _ _ hts hgood hstop hoffset =>
      cases hstop with
      | offset hv ha => exact ⟨_,t.power,_,_,_,hts,hgood,hv,ha,hoffset rfl⟩
  · rintro ⟨before,n,after,us,v,hts,hgood,hv,ha,hoffset⟩
    exact .term hts hgood (.offset hv ha) fun _ => hoffset

theorem refuses_exponentOverflow_iff {s : List Char} :
    r.Refuses signature ts (.malformedSignature s .exponentOverflow) ↔
      s = signature ∧ ∃ before t after us u, ts = before ++ t::after ∧ r.AreGood before us ∧
        r.IsScaled t u ∧ ¬(u.dimension.Fits ∧ (totalDimension us * u.dimension).Fits) := by
  constructor
  · intro h
    cases h with
    | term hts hgood hstop _ =>
      cases hstop with
      | overflow hu hover => exact ⟨rfl,_,_,_,_,_,hts,hgood,hu,hover⟩
  · rintro ⟨rfl,before,t,after,us,u,hts,hgood,hu,hover⟩
    exact .term hts hgood (.overflow hu hover) (by simp)

theorem refuses_factorOutOfRange_iff {s : List Char} :
    r.Refuses signature ts (.malformedSignature s .factorOutOfRange) ↔
      s = signature ∧ ∃ us, r.AreGood ts us ∧ isUsable (totalFactor us) = false := by
  constructor
  · intro h
    cases h with
    | term _ _ hstop _ => cases hstop
    | factor hgood hf => exact ⟨rfl,_,hgood,hf⟩
  · rintro ⟨rfl,us,hgood,hf⟩
    exact .factor hgood hf

/-- Terms are at fault for a unit, or with the whole signature. -/
theorem Refuses.error_eq (h : r.Refuses signature ts e) :
    (∃ symbol, e = .unknownUnit symbol) ∨ (∃ symbol, e = .affineInCompound symbol) ∨
      ∃ fault, e = .malformedSignature signature fault := by
  cases h with
  | term _ _ hstop _ =>
    cases hstop with
    | unknown => exact .inl ⟨_,rfl⟩
    | offset => exact .inr (.inl ⟨_,rfl⟩)
    | overflow => exact .inr (.inr ⟨_,rfl⟩)
  | factor => exact .inr (.inr ⟨_,rfl⟩)

theorem signature_eq_of_split {x : Float} {text : List Char}
    (h : Measurement.split text = .ok (x,signature)) :
    signature = Text.trim (Measurement.spanNumber (Text.trim text)).2 := by
  by_cases hblank : Text.trim text = []
  · simp [Measurement.split,hblank] at h
  · rw [Measurement.split_of_ne_nil hblank] at h
    exact (Measurement.readParts_eq_ok_iff.mp h).2.symm

/-! What each error says of the text. -/

variable {text : List Char}

theorem rejects_empty_iff :
    r.Rejects d text .empty ↔ ∀ c ∈ text, Text.isBlank c = true := by
  constructor
  · intro h
    cases h with
    | empty hblank => exact hblank
    | terms _ he => simpa using he.error_eq
  · exact .empty

theorem rejects_invalidNumber_iff {word : List Char} :
    r.Rejects d text (.invalidNumber word) ↔ (¬∀ c ∈ text, Text.isBlank c = true) ∧
      (Measurement.spanNumber (Text.trim text)).1 = word ∧
        Measurement.readGrouped? word = none := by
  constructor
  · intro h
    cases h with
    | number hvisible hword hread => exact ⟨hvisible,hword,hread⟩
    | terms _ he => simpa using he.error_eq
  · rintro ⟨hvisible,hword,hread⟩
    exact .number hvisible hword hread

theorem rejects_malformedSignature_iff {s : List Char} {fault : Signature.Fault} :
    r.Rejects d text (.malformedSignature s fault) ↔
      (∃ x, Measurement.split text = .ok (x,s) ∧ s ≠ [] ∧
        Signature.read r.knows s = .error fault) ∨
      ∃ ts, r.HasTerms text s ts ∧ r.Refuses s ts (.malformedSignature s fault) := by
  constructor
  · intro h
    cases h with
    | signature hsplit hne hread => exact .inl ⟨_,hsplit,hne,hread⟩
    | terms hts he =>
      obtain rfl : s = _ := by simpa using he.error_eq
      exact .inr ⟨_,hts,he⟩
  · rintro (⟨x,hsplit,hne,hread⟩ | ⟨ts,hts,he⟩)
    · exact .signature hsplit hne hread
    · exact .terms hts he

theorem rejects_dimensionMismatch_iff {a b : Dimension} :
    r.Rejects d text (.dimensionMismatch a b) ↔ a = d ∧ b ≠ d ∧ ∃ x s c,
      Measurement.split text = .ok (x,s) ∧ r.Means s c ∧ c.dimension = b := by
  constructor
  · intro h
    cases h with
    | dimension hsplit hc hne => exact ⟨rfl,hne,_,_,_,hsplit,hc,rfl⟩
    | terms _ he => simpa using he.error_eq
  · rintro ⟨rfl,hne,x,s,c,hsplit,hc,rfl⟩
    exact .dimension hsplit hc hne

/-- Once the terms are read, what is wrong with the signature is wrong with them. -/
theorem HasTerms.rejects_malformedSignature_iff {s : List Char} {fault : Signature.Fault}
    (hts : r.HasTerms text s ts) : r.Rejects d text (.malformedSignature s fault) ↔
      r.Refuses s ts (.malformedSignature s fault) := by
  rw [Registry.rejects_malformedSignature_iff]
  constructor
  · rintro (⟨x,-,-,hread⟩ | ⟨ts',hts',he⟩)
    · cases hts.2.symm.trans hread
    · cases hts.2.symm.trans hts'.2
      exact he
  · intro he
    exact .inr ⟨ts,hts,he⟩

theorem rejects_factorOutOfRange_iff {s : List Char} :
    r.Rejects d text (.malformedSignature s .factorOutOfRange) ↔
      ∃ ts us, r.HasTerms text s ts ∧ r.AreGood ts us ∧ isUsable (totalFactor us) = false := by
  rw [rejects_malformedSignature_iff]
  simp only [refuses_factorOutOfRange_iff,true_and]
  constructor
  · rintro (⟨x,-,-,hread⟩ | ⟨ts,hts,us,h⟩)
    · exact absurd hread Signature.read_ne_factorOutOfRange
    · exact ⟨ts,us,hts,h⟩
  · rintro ⟨ts,us,hts,h⟩
    exact .inr ⟨ts,hts,us,h⟩

/-- An error about a unit is an error of the terms. -/
theorem rejects_iff_refuses (hunit : (∃ symbol, e = .unknownUnit symbol) ∨
    ∃ symbol, e = .affineInCompound symbol) :
    r.Rejects d text e ↔ ∃ s ts, r.HasTerms text s ts ∧ r.Refuses s ts e := by
  constructor
  · intro h
    cases h with
    | terms hts he => exact ⟨_,_,hts,he⟩
    | empty | number | signature | dimension => simp at hunit
  · rintro ⟨s,ts,hts,he⟩
    exact .terms hts he

end

/-- Every error of reading says something true of the text, and one that comes first is not hidden
by any other. -/
structure TellsTruth {β : Type} (r : Registry) (d : Dimension) (text : List Char)
    (result : Except ReadError β) : Prop where
  empty_iff : result = .error .empty ↔ ∀ c ∈ text, Text.isBlank c = true
  invalidNumber_iff : (∃ word, result = .error (.invalidNumber word)) ↔
    (¬∀ c ∈ text, Text.isBlank c = true) ∧
      Measurement.readGrouped? (Measurement.spanNumber (Text.trim text)).1 = none
  signature_eq : ∀ s fault, result = .error (.malformedSignature s fault) →
    s = Text.trim (Measurement.spanNumber (Text.trim text)).2
  /-- Whatever the units are. -/
  fault_first : ∀ x s fault, Measurement.split text = .ok (x,s) → s ≠ [] →
    Signature.read r.knows s = .error fault → result = .error (.malformedSignature s fault)
  unknownUnit_iff : ∀ symbol, result = .error (.unknownUnit symbol) ↔
    ∃ s before n after us, r.HasTerms text s (before ++ ⟨symbol,n⟩::after) ∧
      r.AreGood before us ∧ r.lookup symbol = none
  affineInCompound_iff : ∀ symbol, result = .error (.affineInCompound symbol) ↔
    ∃ s before n after us e, r.HasTerms text s (before ++ ⟨symbol,n⟩::after) ∧
      r.AreGood before us ∧ r.lookup symbol = some e ∧ e.conversion.isAffine = true ∧
        ((before ++ ⟨symbol,n⟩::after).length ≠ 1 ∨ n ≠ 1)
  exponentOverflow_iff : ∀ s ts, r.HasTerms text s ts →
    (result = .error (.malformedSignature s .exponentOverflow) ↔
      ∃ before t after us u, ts = before ++ t::after ∧ r.AreGood before us ∧ r.IsScaled t u ∧
        ¬(u.dimension.Fits ∧ (totalDimension us * u.dimension).Fits))
  factorOutOfRange_iff : ∀ s, result = .error (.malformedSignature s .factorOutOfRange) ↔
    ∃ ts us, r.HasTerms text s ts ∧ r.AreGood ts us ∧ isUsable (totalFactor us) = false
  dimensionMismatch_iff : ∀ a b, result = .error (.dimensionMismatch a b) ↔
    a = d ∧ b ≠ d ∧ ∃ x s c, Measurement.split text = .ok (x,s) ∧ r.Means s c ∧ c.dimension = b

theorem read_tells_truth (r : Registry) {α : Type} [Scalar α] (d : Dimension)
    (text : List Char) :
    r.TellsTruth d text (r.read d text : Outcome ReadError (Quantity d 1 α)).result where
  empty_iff := read_eq_error_iff_rejects.trans rejects_empty_iff
  invalidNumber_iff := by
    simp only [read_eq_error_iff_rejects,rejects_invalidNumber_iff]
    simp
  signature_eq s fault h := by
    rcases rejects_malformedSignature_iff.mp (read_eq_error_iff_rejects.mp h) with
      ⟨x,hsplit,-⟩ | ⟨ts,⟨⟨x,hsplit⟩,-⟩,-⟩
    · exact signature_eq_of_split hsplit
    · exact signature_eq_of_split hsplit
  fault_first x s fault hsplit hne hread :=
    read_eq_error_iff_rejects.mpr (.signature hsplit hne hread)
  unknownUnit_iff symbol := by
    simp only [read_eq_error_iff_rejects,rejects_iff_refuses (.inl ⟨symbol,rfl⟩),
      refuses_unknownUnit_iff]
    constructor
    · rintro ⟨s,_,hts,before,n,after,us,rfl,h⟩
      exact ⟨s,before,n,after,us,hts,h⟩
    · rintro ⟨s,before,n,after,us,hts,h⟩
      exact ⟨s,_,hts,before,n,after,us,rfl,h⟩
  affineInCompound_iff symbol := by
    simp only [read_eq_error_iff_rejects,rejects_iff_refuses (.inr ⟨symbol,rfl⟩),
      refuses_affineInCompound_iff]
    constructor
    · rintro ⟨s,_,hts,before,n,after,us,e,rfl,h⟩
      exact ⟨s,before,n,after,us,e,hts,h⟩
    · rintro ⟨s,before,n,after,us,e,hts,h⟩
      exact ⟨s,_,hts,before,n,after,us,e,rfl,h⟩
  exponentOverflow_iff s ts hts := by
    rw [read_eq_error_iff_rejects,hts.rejects_malformedSignature_iff,refuses_exponentOverflow_iff]
    exact and_iff_right rfl
  factorOutOfRange_iff s := read_eq_error_iff_rejects.trans rejects_factorOutOfRange_iff
  dimensionMismatch_iff a b := read_eq_error_iff_rejects.trans rejects_dimensionMismatch_iff

/-- The unit is not registered, but the power after the slash has no inverse. -/
theorem read_tells_truth_overflow :
    let s := "qq/m^-2147483648".toList
    ∃ x, Measurement.split ("1 ".toList ++ s) = .ok (x,s) ∧ s ≠ [] ∧
      Signature.read builtin.knows s = .error .exponentOverflow ∧
      builtin.knows "qq".toList = false ∧
      (builtin.read .length ("1 ".toList ++ s) :
        Outcome ReadError (Quantity .length 1 Float)).result =
          .error (.malformedSignature s .exponentOverflow) := by
  intro s
  have hne : s ≠ [] := by decide
  have hread : Signature.read builtin.knows s = .error .exponentOverflow := by decide +kernel
  obtain ⟨x,hsplit⟩ : ∃ x, Measurement.split ("1 ".toList ++ s) = .ok (x,s) := ⟨_,rfl⟩
  have htruth := read_tells_truth builtin (α := Float) .length ("1 ".toList ++ s)
  exact ⟨x,hsplit,hne,hread,by decide +kernel,htruth.fault_first x s _ hsplit hne hread⟩

end Mensura.Registry
