import Mathlib.Data.List.Basic
import Mensura.Decimal
import Mensura.Proofs.UnitLiteral.Expansion

/-! Texts with a decimal point. A finite number is written as digits, a point and digits, behind its
sign if it is negative; there is no exponent, however large or small the number is. -/
namespace Mensura.Decimal

/-- Digits, at least one, a point, and digits. -/
def IsPointed (s : List Char) : Prop :=
  ∃ whole fraction : List Char, s = whole ++ '.'::fraction ∧ whole ≠ [] ∧
    (∀ c ∈ whole, c.isDigit = true) ∧ ∀ c ∈ fraction, c.isDigit = true

theorem isDigit_of_mem_replicate {n : Nat} : ∀ c ∈ List.replicate n '0', c.isDigit = true := by
  intro c hc
  rw [List.eq_of_mem_replicate hc]
  rfl

theorem isDigit_of_mem_digits (d : Decimal) : ∀ c ∈ d.digits, c.isDigit = true :=
  fun _ hc => Nat.isDigit_of_mem_toDigits (by decide) (by decide) hc

theorem digits_ne_nil (d : Decimal) : d.digits ≠ [] := Nat.toDigits_ne_nil

theorem point_not_mem {s : List Char} (hs : ∀ c ∈ s, c.isDigit = true) : '.' ∉ s :=
  fun h => by simpa using hs '.' h

theorem isPointed_withDecimal {s : List Char} (hne : s ≠ []) (hs : ∀ c ∈ s, c.isDigit = true) :
    IsPointed (withDecimal s) := by
  rw [withDecimal,if_neg (point_not_mem hs)]
  exact ⟨s,['0'],rfl,hne,hs,by simp⟩

theorem IsPointed.withDecimal_eq {s : List Char} (h : IsPointed s) : withDecimal s = s := by
  obtain ⟨whole,fraction,rfl,-⟩ := h
  exact if_pos (by simp)

theorem IsPointed.exists_cons {s : List Char} (h : IsPointed s) :
    ∃ c t, s = c::t ∧ c.isDigit = true := by
  obtain ⟨whole,fraction,rfl,hne,hwhole,-⟩ := h
  obtain ⟨c,whole,rfl⟩ := List.exists_cons_of_ne_nil hne
  exact ⟨c,whole ++ '.'::fraction,rfl,hwhole c List.mem_cons_self⟩

/-- Wherever the point goes, there are digits before it. -/
theorem isPointed_positional {ds : List Char} (hne : ds ≠ []) (hds : ∀ c ∈ ds, c.isDigit = true)
    (e : Int) : IsPointed (withDecimal (positional ds e)) := by
  simp only [positional]
  split
  · exact isPointed_withDecimal (by simp [hne])
      (List.forall_mem_append.mpr ⟨hds,isDigit_of_mem_replicate⟩)
  · split
    · rename_i h
      have hpointed : IsPointed (ds.take (ds.length - (-e).toNat) ++
          '.'::ds.drop (ds.length - (-e).toNat)) := by
        refine ⟨_,_,rfl,?_,fun c hc => hds c (List.mem_of_mem_take hc),
          fun c hc => hds c (List.mem_of_mem_drop hc)⟩
        intro hnil
        rcases List.take_eq_nil_iff.mp hnil with hnone | hnil
        · omega
        · exact hne hnil
      rwa [hpointed.withDecimal_eq]
    · have hpointed :
          IsPointed ('0' :: '.' :: (List.replicate ((-e).toNat - ds.length) '0' ++ ds)) :=
        ⟨['0'],_,rfl,by simp,by simp,List.forall_mem_append.mpr ⟨isDigit_of_mem_replicate,hds⟩⟩
      rwa [hpointed.withDecimal_eq]

theorem isPointed_plain (d : Decimal) : IsPointed (withDecimal d.plain) :=
  isPointed_positional d.digits_ne_nil d.isDigit_of_mem_digits d.exponent

variable {α : Type} [Scalar α]

theorem withDecimal_signText_append (x : α) (s : List Char) :
    withDecimal (signText x ++ s) = signText x ++ withDecimal s := by
  have hsign : '.' ∉ signText x := by
    unfold signText
    split <;> simp
  by_cases h : '.' ∈ s <;> simp [withDecimal,hsign,h]

theorem isPointed_magnitudeText {zero : List Char} {finite : Nat → Int → List Char}
    (hzero : IsPointed (withDecimal zero)) (hfinite : ∀ m e, IsPointed (withDecimal (finite m e)))
    {x : α} (h : Scalar.isFinite x = true) :
    IsPointed (withDecimal (magnitudeText zero finite x)) := by
  have hnan : Scalar.isNaN x = false := by
    by_contra hn
    simp [Scalar.isFinite,hn] at h
  have hinfinite : Scalar.isInfinite x = false := by
    by_contra hi
    simp [Scalar.isFinite,hi] at h
  unfold magnitudeText
  split
  · rename_i hx
    simp [Scalar.isInfinite,hx] at hinfinite
  · rename_i hx
    simp [Scalar.isNaN,hx] at hnan
  · exact hzero
  · exact hfinite _ _

theorem exists_pointText_eq {x : α} (h : Scalar.isFinite x = true) :
    ∃ s, pointText x = signText x ++ s ∧ IsPointed s := by
  refine ⟨_,?_,isPointed_magnitudeText (isPointed_withDecimal (s := ['0']) (by simp) (by simp))
    (fun m e => isPointed_plain (shortest (Scalar.format α) .up m e)) h⟩
  rw [pointText,if_pos h,plainText,withDecimal_signText_append]

end Mensura.Decimal

/-! Expanding once is enough. The numbers in constructor calls are written with a point and without
an exponent, so they have no suffix, and an expanded stream has no unit literals left. -/
namespace Mensura.UnitLiteral
open Decimal (IsPointed pointText signText)

theorem isDecimalChar_of_isDigit {c : Char} (h : c.isDigit = true) : isDecimalChar c = true := by
  simp [isDecimalChar,h]

theorem spanFraction_of_isDigit {s : List Char} (hs : ∀ c ∈ s, c.isDigit = true) :
    spanFraction ('.'::s) = ('.'::s,[]) := by
  have hall : ∀ c ∈ s, isDecimalChar c = true := fun c hc => isDecimalChar_of_isDigit (hs c hc)
  obtain ⟨htake,hdrop⟩ := Decimal.span_of_forall (t := []) hall (by simp)
  rw [List.append_nil] at htake hdrop
  simp only [spanFraction,htake,hdrop]

theorem read?_of_isPointed {s : List Char} (h : IsPointed s) :
    ∃ x, Number.read? s = some ⟨x,[]⟩ := by
  obtain ⟨whole,fraction,rfl,hne,hwhole,hfraction⟩ := h
  have hdrop : (whole ++ '.'::fraction).dropWhile isDecimalChar = '.'::fraction :=
    (Decimal.span_of_forall (fun c hc => isDecimalChar_of_isDigit (hwhole c hc)) (by simp; rfl)).2
  obtain ⟨c,whole,rfl⟩ := List.exists_cons_of_ne_nil hne
  have hc : c.isDigit = true := hwhole c List.mem_cons_self
  obtain ⟨m,e,hread⟩ := exists_readDecimal? hc (whole ++ '.'::fraction)
  rw [← List.cons_append,hdrop,spanFraction_of_isDigit hfraction] at hread
  refine ⟨Scalar.ofDecimal m e,?_⟩
  -- behind the first digit there is a digit or the point, and no letter for another base
  have hletter : ∀ d t, whole ++ '.'::fraction = d::t → d.isDigit = true ∨ d = '.' := by
    intro d t hd
    cases whole with
    | nil => exact .inr (List.cons.inj hd).1.symm
    | cons w whole =>
      obtain ⟨rfl,-⟩ := List.cons.inj hd
      exact .inl (hwhole w (by simp))
  rw [List.cons_append] at hread ⊢
  unfold Number.read?
  split
  · rename_i heq
    have hx := hletter _ _ (List.cons.inj heq).2
    simp at hx
  · rename_i heq
    have hx := hletter _ _ (List.cons.inj heq).2
    simp at hx
  · rename_i heq
    have hx := hletter _ _ (List.cons.inj heq).2
    simp at hx
  · rename_i heq
    obtain ⟨rfl,rfl⟩ := List.cons.inj heq
    rw [if_pos hc,hread]
    rfl
  · rename_i heq
    cases heq

theorem not_isUnitLiteral_of_isPointed {s : List Char} (h : IsPointed s) (n : Number) :
    ¬IsUnitLiteral s n := by
  intro hn
  obtain ⟨x,hx⟩ := read?_of_isPointed h
  cases hn.read.symm.trans hx
  exact hn.suffix_ne_nil rfl

theorem ofLiteral_of_isPointed {s : List Char} (h : IsPointed s) :
    Token.ofLiteral s = [.literal s] := by
  obtain ⟨c,t,rfl,hc⟩ := h.exists_cons
  unfold Token.ofLiteral
  split
  · rename_i heq
    obtain ⟨rfl,-⟩ := List.cons.inj heq
    simp at hc
  · rfl

/-- The number in a constructor call is one token: it has no minus sign. -/
theorem isPointed_value {s : List Char} {n : Number} (hn : Number.read? s = some n)
    (hfinite : Scalar.isFinite n.value = true) : IsPointed (pointText n.value) := by
  obtain ⟨body,hbody,hpointed⟩ := Decimal.exists_pointText_eq hfinite
  have hsign : signText n.value = [] := by
    rw [signText,Number.isNegative_value hn]
    rfl
  rwa [hbody,hsign,List.nil_append]

/-- A stream without unit literals. -/
def IsExpanded (ts : List Token) : Prop := ∀ s ∈ literals ts, ∀ n, ¬IsUnitLiteral s n

theorem IsExpanded.isExpansion {ts : List Token} (h : IsExpanded ts) : IsExpansion ts ts := by
  induction ts using stream_induction with
  | nil => exact .nil
  | literal s ts ih =>
    obtain ⟨hs,hts⟩ := List.forall_mem_cons.mp h
    exact .literal hs (ih hts)
  | identifier name ts ih => exact .identifier (ih h)
  | punctuation c ts ih => exact .punctuation (ih h)
  | group d ts us ihts ihus =>
    obtain ⟨hts,hus⟩ := List.forall_mem_append.mp h
    exact .group (ihts hts) (ihus hus)

theorem IsExpansion.isExpanded {ts us : List Token} (h : IsExpansion ts us) : IsExpanded us := by
  induction h with
  | nil => simp [IsExpanded,literals]
  | unit hs hfinite _ ih =>
    -- of the ten tokens only the number in the group is a literal
    have hvalue := not_isUnitLiteral_of_isPointed (isPointed_value hs.read hfinite)
    exact List.forall_mem_cons.mpr ⟨hvalue,ih⟩
  | literal hs _ ih => exact List.forall_mem_cons.mpr ⟨hs,ih⟩
  | identifier _ ih => exact ih
  | punctuation _ ih => exact ih
  | group _ _ ihinner ihrest => exact List.forall_mem_append.mpr ⟨ihinner,ihrest⟩

/-- A second expansion changes nothing. The text of every finite number, less its sign, is read as a
number with a point and without a suffix, and in constructor calls there is no sign. -/
theorem expand_idempotent :
    (∀ ts us, expand ts = .ok us → expand us = .ok us) ∧
    (∀ x : Float, Scalar.isFinite x = true → ∃ sign body value,
      Token.ofLiteral (pointText x) = sign ++ [.literal body] ∧
      (sign = [] ∨ sign = [.punctuation '-']) ∧ IsPointed body ∧
      Number.read? body = some ⟨value,[]⟩) ∧
    ∀ s n, Number.read? s = some n → Scalar.isFinite n.value = true →
      Token.ofLiteral (pointText n.value) = [.literal (pointText n.value)] := by
  refine ⟨fun ts us h => ?_,fun x hx => ?_,fun s n hn hfinite => ?_⟩
  · exact (expand_eq_ok_iff.mp h).isExpanded.isExpansion.expand_eq
  · obtain ⟨body,htext,hbody⟩ := Decimal.exists_pointText_eq hx
    obtain ⟨value,hvalue⟩ := read?_of_isPointed hbody
    have hsign : signText x = [] ∨ signText x = ['-'] := by
      unfold signText
      split <;> simp
    rw [htext]
    rcases hsign with hsign | hsign
    · exact ⟨[],body,value,by simp [hsign,ofLiteral_of_isPointed hbody],.inl rfl,hbody,hvalue⟩
    · exact ⟨[.punctuation '-'],body,value,by rw [hsign]; rfl,.inr rfl,hbody,hvalue⟩
  · exact ofLiteral_of_isPointed (isPointed_value hn hfinite)

theorem expand_idempotent_exponent :
    let ts : List Token := [.punctuation '-',.group .invisible [.literal "1e22_km".toList]]
    let x : Float := Scalar.ofDecimal 1 22
    let us : List Token := [.punctuation '-',.group .invisible (constructorCall "km".toList x)]
    expand ts = .ok us ∧ expand us = .ok us ∧ Scalar.isFinite (-x) = true ∧
      (∃ sign body value, Token.ofLiteral (pointText (-x)) = sign ++ [.literal body] ∧
        (sign = [] ∨ sign = [.punctuation '-']) ∧ IsPointed body ∧
        Number.read? body = some ⟨value,[]⟩) ∧
      ∃ n, Number.read? "1e22_km".toList = some n ∧ Scalar.isFinite n.value = true ∧
        Token.ofLiteral (pointText n.value) = [.literal (pointText n.value)] := by
  intro ts x us
  have hts : expand ts = .ok us := rfl
  have hx : Scalar.isFinite (-x) = true := by decide +kernel
  have hn : Number.read? "1e22_km".toList = some ⟨x,"km".toList⟩ := rfl
  have hfinite : Scalar.isFinite x = true := by decide +kernel
  exact ⟨hts,expand_idempotent.1 ts us hts,hx,expand_idempotent.2.1 (-x) hx,_,hn,hfinite,
    expand_idempotent.2.2 _ _ hn hfinite⟩

end Mensura.UnitLiteral
