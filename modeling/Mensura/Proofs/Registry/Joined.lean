import Mensura.Proofs.Registry.Refusal
import Mensura.Proofs.Signature.Denotation

/-! Signatures side by side, and what they stand for together. The terms of both are read as they
are read alone, so the dimensions are multiplied, in either order. What can go wrong is not in the
units any more: an exponent can leave 32 bits on the way, though not in every order, and the factor
can become one that cannot be divided by. -/
namespace Mensura

namespace Signature
variable {known : List Char → Bool} {sign g a b : List Char} {us vs : List Term}

/-- Behind terms that can be read, reading goes on as if nothing but a term had been there. -/
theorem readTerms_append_of_ok {place : Place} {ps : List Piece}
    (h : readTerms known place ps = .ok us) (hplace : ps ≠ [] ∨ place = .afterTerm)
    (qs : List Piece) :
    readTerms known place (ps ++ qs) = (readTerms known .afterTerm qs).map (us ++ ·) := by
  induction ps generalizing place us with
  | nil =>
    obtain rfl := hplace.resolve_left fun hne => hne rfl
    obtain ⟨-,rfl⟩ := readTerms_nil_eq_ok_iff.mp h
    cases hqs : readTerms known .afterTerm qs <;> simp [hqs,Except.map]
  | cons p ps ih =>
    cases p with
    | operator c =>
      obtain ⟨rfl,hps⟩ := readTerms_operator_eq_ok_iff.mp h
      have hne : ps ≠ [] := by
        rintro rfl
        exact absurd rfl ((readTerms_nil_eq_ok_iff.mp hps).1 c)
      rw [List.cons_append,readTerms_operator,ih hps (.inl hne)]
    | word w =>
      obtain ⟨t,ts,ht,hts,rfl⟩ := readTerms_word_eq_ok_iff.mp h
      rw [List.cons_append,readTerms_word,ht,ih hts (.inr rfl)]
      cases hqs : readTerms known .afterTerm qs <;> simp [Except.bind,Except.map]

/-- A signature starts with a word, and what this follows only matters if it is a slash. -/
theorem readTerms_of_start (place : Place) (hplace : place ≠ .afterOperator '/') {ps : List Piece}
    (hps : ps ≠ []) (h : readTerms known .start ps = .ok us) :
    readTerms known place ps = .ok us := by
  obtain ⟨p,ps,rfl⟩ := List.exists_cons_of_ne_nil hps
  cases p with
  | operator c => simp [readTerms_operator_eq_ok_iff] at h
  | word w => rw [readTerms_word_congr hplace (q := .start) (by simp),h]

theorem pieces_ne_nil_of_read (h : read known a = .ok us) : pieces a ≠ [] := by
  intro hnil
  rw [read,hnil] at h
  cases h

/-- Blanks at the ends of the two do not matter. -/
theorem read_times_of_ok (ha : read known a = .ok us) (hb : read known b = .ok vs)
    (h : IsJoint sign g) (hsign : sign ∈ [[],['*'],['·']]) :
    read known (a ++ g ++ b) = .ok (us ++ vs) := by
  have hleft := pieces_ne_nil_of_read ha
  have hright := pieces_ne_nil_of_read hb
  rw [read_eq_readTerms hleft] at ha
  rw [read_eq_readTerms hright] at hb
  have hsign' : sign = [] ∨ sign = ['*'] ∨ sign = ['·'] := by simpa using hsign
  have hoperator : ∀ c ∈ sign, isOperator c = true := by
    rcases hsign' with rfl | rfl | rfl <;> simp [isOperator]
  have hplace : readTerms known .afterTerm (sign.map .operator ++ pieces b) = .ok vs := by
    rcases hsign' with rfl | rfl | rfl
    · exact readTerms_of_start _ (by simp) hright hb
    · exact readTerms_of_start (.afterOperator '*') (by decide) hright hb
    · exact readTerms_of_start (.afterOperator '·') (by decide) hright hb
  have hpieces := pieces_joint (a := a) (b := b) h hoperator
  have hne : pieces (a ++ g ++ b) ≠ [] := by
    rw [hpieces]
    simp [hleft]
  rw [read_eq_readTerms hne,hpieces,List.append_assoc,readTerms_append_of_ok ha (.inl hleft),
    hplace]
  rfl

end Signature

namespace UnitPower

@[simp] theorem totalDimension_append (us vs : List UnitPower) :
    totalDimension (us ++ vs) = totalDimension us * totalDimension vs := by
  simp [totalDimension]

end UnitPower

namespace Registry
open UnitPower
variable {r : Registry} {a b g sign signature : List Char} {us vs : List UnitPower}

/-- The words of the signature are these powers of units, none of which has an offset. -/
def ConsistsOf (r : Registry) (signature : List Char) (us : List UnitPower) : Prop :=
  ∃ ts, Signature.read r.knows signature = .ok ts ∧ List.Forall₂ r.IsScaled ts us

theorem ConsistsOf.joined (ha : r.ConsistsOf a us) (hb : r.ConsistsOf b vs)
    (hg : Signature.IsJoint sign g) (hsign : sign ∈ [[],['*'],['·']]) :
    r.ConsistsOf (a ++ g ++ b) (us ++ vs) := by
  obtain ⟨ts,hts,hus⟩ := ha
  obtain ⟨ts',hts',hvs⟩ := hb
  exact ⟨ts ++ ts',Signature.read_times_of_ok hts hts' hg hsign,List.rel_append hus hvs⟩

theorem exists_consistsOf {c : Resolution} (h : (r.resolve signature).result = .ok c)
    (hc : c.conversion.isAffine = false) :
    ∃ us, r.ConsistsOf signature us ∧ totalDimension us = c.dimension := by
  obtain ⟨ts,hread,hy⟩ := resolve_eq_ok_iff.mp h
  cases hy with
  | offset _ ha => simp [ha] at hc
  | product hus _ _ => exact ⟨_,⟨ts,hread,hus⟩,rfl⟩

/-- The units are right, so the exponents and the factor decide. -/
theorem ConsistsOf.resolve_eq_ok_iff (h : r.ConsistsOf signature us) {c : Resolution} :
    (r.resolve signature).result = .ok c ↔ StaysInRange us ∧ isUsable (totalFactor us) = true ∧
      c = ⟨totalDimension us,.scale (totalFactor us)⟩ := by
  obtain ⟨ts,hread,hus⟩ := h
  rw [Registry.resolve_eq_ok_iff]
  constructor
  · rintro ⟨ts',hread',hy⟩
    obtain rfl := Except.ok.inj (hread.symm.trans hread')
    cases hy with
    | offset he ha =>
      obtain ⟨u,_,hu,_,_⟩ := List.forall₂_cons_left_iff.mp hus
      simp [hu.isAffine_eq_false he] at ha
    | product hvs hrange hf =>
      obtain rfl := eq_of_areScaled hus hvs
      exact ⟨hrange,hf,rfl⟩
  · rintro ⟨hrange,hf,rfl⟩
    exact ⟨ts,hread,.product hus hrange hf⟩

/-- No error is about a unit. -/
theorem ConsistsOf.resolve_eq_error (h : r.ConsistsOf signature us) {e : ReadError}
    (he : (r.resolve signature).result = .error e) :
    e = .malformedSignature signature .exponentOverflow ∨
      e = .malformedSignature signature .factorOutOfRange := by
  obtain ⟨ts,hread,hus⟩ := h
  rcases resolve_eq_error_iff.mp he with ⟨fault,hfault,-⟩ | ⟨ts',hread',hrefuses⟩
  · rw [hread] at hfault
    cases hfault
  · obtain rfl := Except.ok.inj (hread.symm.trans hread')
    cases hrefuses with
    | factor => exact .inr rfl
    | @term before after t _ _ hts _ hstop _ =>
      obtain ⟨u,hu⟩ := Signature.exists_forall₂_iff.mp ⟨us,hus⟩ t (by simp [hts])
      cases hstop with
      | unknown hnone => simp [hu.1] at hnone
      | offset hv ha => simp [hu.isAffine_eq_false hv] at ha
      | overflow => exact .inl rfl

/-- Two signatures that stand for products of units also do so side by side, and then for the
product of both dimensions, whichever comes first. Whether the exponents stay in range may depend
on the order. -/
theorem resolve_joined {c d : Resolution} (ha : (r.resolve a).result = .ok c)
    (hb : (r.resolve b).result = .ok d) (hc : c.conversion.isAffine = false)
    (hd : d.conversion.isAffine = false) (hg : Signature.IsJoint sign g)
    (hsign : sign ∈ [[],['*'],['·']]) :
    ∀ s ∈ [a ++ g ++ b,b ++ g ++ a],
      (∀ e, (r.resolve s).result = .ok e → e.dimension = c.dimension * d.dimension) ∧
      (∀ e, (r.resolve s).result = .error e → e = .malformedSignature s .exponentOverflow ∨
        e = .malformedSignature s .factorOutOfRange) ∧
      ∃ us, r.ConsistsOf s us ∧ ((∃ e, (r.resolve s).result = .ok e) ↔
        StaysInRange us ∧ isUsable (totalFactor us) = true) := by
  obtain ⟨us,hus,hleft⟩ := exists_consistsOf ha hc
  obtain ⟨vs,hvs,hright⟩ := exists_consistsOf hb hd
  have hjoined : ∀ s ∈ [a ++ g ++ b,b ++ g ++ a],
      ∃ ws, r.ConsistsOf s ws ∧ totalDimension ws = c.dimension * d.dimension := by
    simp only [List.forall_mem_cons]
    refine ⟨⟨us ++ vs,hus.joined hvs hg hsign,?_⟩,⟨vs ++ us,hvs.joined hus hg hsign,?_⟩,by simp⟩
    · rw [totalDimension_append,hleft,hright]
    · rw [totalDimension_append,hleft,hright,mul_comm]
  intro s hs
  obtain ⟨ws,hws,htotal⟩ := hjoined s hs
  refine ⟨fun e he => ?_,fun e he => hws.resolve_eq_error he,ws,hws,?_⟩
  · obtain ⟨-,-,rfl⟩ := hws.resolve_eq_ok_iff.mp he
    exact htotal
  · constructor
    · rintro ⟨e,he⟩
      obtain ⟨hrange,hf,-⟩ := hws.resolve_eq_ok_iff.mp he
      exact ⟨hrange,hf⟩
    · rintro ⟨hrange,hf⟩
      exact ⟨_,hws.resolve_eq_ok_iff.mpr ⟨hrange,hf,rfl⟩⟩

/-- Only in one of the two orders do the exponents stay in range. -/
theorem resolve_joined_at_limit :
    let a := "m^2147483647".toList
    let b := " m m⁻¹".toList
    let g := " · ".toList
    ∃ c d e, (builtin.resolve a).result = .ok c ∧ c.dimension = ⟨2147483647,0,0,0,0⟩ ∧
      (builtin.resolve b).result = .ok d ∧ d.dimension = .dimensionless ∧
      (builtin.resolve (b ++ g ++ a)).result = .ok e ∧ e.dimension = c.dimension * d.dimension ∧
      (builtin.resolve (a ++ g ++ b)).result =
        .error (.malformedSignature (a ++ g ++ b) .exponentOverflow) := by
  intro a b g
  have hscale : ∀ s dimension, (builtin.resolve s).result.toOption.any
      (fun c => c.dimension = dimension && !c.conversion.isAffine) = true →
      ∃ c, (builtin.resolve s).result = .ok c ∧ c.dimension = dimension ∧
        c.conversion.isAffine = false := by
    intro s dimension h
    cases hc : (builtin.resolve s).result with
    | error fault => simp [hc,Except.toOption] at h
    | ok c => exact ⟨c,rfl,by simpa [hc,Except.toOption] using h⟩
  obtain ⟨c,hc,hlength,hca⟩ := hscale a ⟨2147483647,0,0,0,0⟩ (by decide +kernel)
  obtain ⟨d,hd,hnone,hda⟩ := hscale b .dimensionless (by decide +kernel)
  obtain ⟨e,he⟩ : ∃ e, (builtin.resolve (b ++ g ++ a)).result = .ok e :=
    Outcome.exists_eq_ok (by decide +kernel)
  have hblank : ∀ c ∈ [' '], Text.isBlank c = true := List.forall_mem_singleton.mpr (by decide)
  have hg : Signature.IsJoint ['·'] g := ⟨by decide,[' '],[' '],by decide,hblank,hblank⟩
  have hboth := resolve_joined hc hd hca hda hg (by decide)
  exact ⟨c,d,e,hc,hlength,hd,hnone,he,(hboth (b ++ g ++ a) (by simp)).1 e he,rfl⟩

end Registry
end Mensura
