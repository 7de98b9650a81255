import Mathlib
import Mensura.Quantity

/-! A vector quantity is its axes side by side: whatever sequence of operations runs on it, every
axis goes the way of a scalar quantity of its own. -/
namespace Mensura
variable {d e : Dimension} {n : Nat} {α β : Type}

namespace Components

theorem get_set (v : Vector α n) (i j : Fin n) (x : α) :
    (v.set i x i.isLt).get j = if j = i then x else v.get j := by
  by_cases hj : j = i
  · subst hj
    rw [if_pos rfl]
    exact Vector.getElem_set_self j.isLt
  · have hne : (i : Nat) ≠ j := fun he => hj (Fin.ext he.symm)
    rw [if_neg hj]
    exact Vector.getElem_set_ne i.isLt j.isLt hne

/-- Components outside the list keep their value. -/
theorem get_foldl_set (f : Fin n → α → α) (is : List (Fin n)) (h : is.Nodup) (v : Vector α n)
    (j : Fin n) : (is.foldl (fun v (i : Fin n) => v.set i (f i (v.get i)) i.isLt) v).get j =
      if j ∈ is then f j (v.get j) else v.get j := by
  induction is generalizing v with
  | nil => simp
  | cons i is ih =>
    obtain ⟨hi,h⟩ := List.nodup_cons.mp h
    rw [List.foldl_cons,ih h]
    by_cases hj : j = i
    · subst hj
      simp [hi,get_set]
    · simp [hj,get_set]

theorem get_assign (f : Fin n → α → α) (v : Vector α n) (i : Fin n) :
    (assign f v).get i = f i (v.get i) := by
  rw [assign,get_foldl_set f _ (List.nodup_finRange n),if_pos (List.mem_finRange i)]

theorem assign_eq_map (f : α → α) (v : Vector α n) : assign (fun _ => f) v = v.map f :=
  Vector.ext fun i hi => (get_assign _ v ⟨i,hi⟩).trans (Vector.getElem_map f hi).symm

theorem assign_eq_zipWith (f : α → α → α) (v w : Vector α n) :
    assign (fun i x => f x (w.get i)) v = v.zipWith f w :=
  Vector.ext fun i hi => (get_assign _ v ⟨i,hi⟩).trans (Vector.getElem_zipWith hi).symm

end Components

namespace Quantity

@[simp] theorem scalar_map (f : α → β) (q : Quantity d 1 α) :
    (q.map f : Quantity e 1 β).scalar = f q.scalar := by
  simp [map,scalar]
@[simp] theorem scalar_zipWith (f : α → α → α) (p q : Quantity d 1 α) :
    (p.zipWith f q).scalar = f p.scalar q.scalar := by
  simp [zipWith,scalar]

theorem scalar_foldl_add [Scalar α] (q : Quantity d 1 α) (qs : List (Quantity d 1 α)) :
    (qs.foldl (· + ·) q).scalar = (qs.map scalar).foldl (· + ·) q.scalar := by
  induction qs generalizing q with
  | nil => rfl
  | cons p qs ih =>
    rw [List.foldl_cons,ih,add_eq,scalar_zipWith,List.map_cons,List.foldl_cons]

variable [Scalar α] (p q r : Quantity d n α) (i : Fin n) (k : α)

/-! The assignments are written apart from the binary forms and have their effect. -/

theorem addAssign_eq : p.addAssign q = p + q :=
  congrArg mk (Components.assign_eq_zipWith (· + ·) p.value q.value)

theorem subAssign_eq : p.subAssign q = p - q :=
  congrArg mk (Components.assign_eq_zipWith (· - ·) p.value q.value)

theorem scaleAssign_eq : q.scaleAssign k = q.scale k :=
  congrArg mk (Components.assign_eq_map (· * k) q.value)

theorem divideAssign_eq : q.divideAssign k = q.divide k :=
  congrArg mk (Components.assign_eq_map (· / k) q.value)

/-! One axis of every operation. -/

@[simp] theorem axis_zero : (zero : Quantity d n α).axis i = zero := axis_splat _ _
@[simp] theorem axis_infinity : (infinity : Quantity d n α).axis i = infinity := axis_splat _ _
@[simp] theorem axis_nan : (nan : Quantity d n α).axis i = nan := axis_splat _ _
@[simp] theorem axis_neg : (-q).axis i = -q.axis i := axis_map _ _ _
@[simp] theorem axis_abs : q.abs.axis i = (q.axis i).abs := axis_map _ _ _
@[simp] theorem axis_scale : (q.scale k).axis i = (q.axis i).scale k := axis_map _ _ _
@[simp] theorem axis_divide : (q.divide k).axis i = (q.axis i).divide k := axis_map _ _ _
@[simp] theorem axis_add : (p + q).axis i = p.axis i + q.axis i := axis_zipWith _ _ _ _
@[simp] theorem axis_sub : (p - q).axis i = p.axis i - q.axis i := axis_zipWith _ _ _ _
@[simp] theorem axis_min : (p.min q).axis i = (p.axis i).min (q.axis i) := axis_zipWith _ _ _ _
@[simp] theorem axis_max : (p.max q).axis i = (p.axis i).max (q.axis i) := axis_zipWith _ _ _ _
@[simp] theorem axis_lerp : (p.lerp q k).axis i = (p.axis i).lerp (q.axis i) k :=
  axis_zipWith _ _ _ _
@[simp] theorem axis_clamp : (p.clamp q r).axis i = (p.axis i).clamp (q.axis i) (r.axis i) := by
  simp [clamp]

theorem axis_foldl_add (qs : List (Quantity d n α)) :
    (qs.foldl (· + ·) q).axis i = (qs.map (·.axis i)).foldl (· + ·) (q.axis i) := by
  induction qs generalizing q with
  | nil => rfl
  | cons p qs ih => simp [ih]

@[simp] theorem axis_sum (qs : List (Quantity d n α)) :
    (sum qs).axis i = sum (qs.map (·.axis i)) := by
  rw [sum,axis_foldl_add,axis_zero,sum]

/-! Questions about all components. -/

theorem isNaN_iff_axis : q.isNaN = true ↔ ∃ i, (q.axis i).isNaN = true := by
  simp [isNaN,axis,ofScalar,Vector.any_iff_exists,Fin.exists_iff]

theorem isInfinite_iff_axis : q.isInfinite = true ↔ ∃ i, (q.axis i).isInfinite = true := by
  simp [isInfinite,axis,ofScalar,Vector.any_iff_exists,Fin.exists_iff]

theorem isFinite_iff_axis : q.isFinite = true ↔ ∀ i, (q.axis i).isFinite = true := by
  simp [isFinite,axis,ofScalar,Fin.forall_iff]

theorem valueOf_axis (u : UnitOf d) : u.valueOf (q.axis i) = #v[(u.valueOf q).get i] := by
  simp [UnitOf.valueOf,axis,ofScalar,Vector.get_eq_getElem]

theorem axis_convert (u v : UnitOf d) :
    (v.of (u.valueOf q)).axis i = v.of (u.valueOf (q.axis i)) := by
  simp [UnitOf.of,UnitOf.valueOf,axis,ofScalar]

end Quantity

namespace Operation

/-- The operation of one axis: that component of every vector, and every number as it is. -/
def axis (i : Fin n) : Operation d n α → Operation d 1 α
  | set v => set (v.axis i)
  | of u raw => of u #v[raw.get i]
  | convert u v => convert u v
  | zero => zero
  | infinity => infinity
  | nan => nan
  | addZero => addZero
  | subZero => subZero
  | neg => neg
  | abs => abs
  | add v => add (v.axis i)
  | sub v => sub (v.axis i)
  | subFrom v => subFrom (v.axis i)
  | scale k => scale k
  | divide k => divide k
  | addAssign v => addAssign (v.axis i)
  | subAssign v => subAssign (v.axis i)
  | addAssignZero => addAssignZero
  | subAssignZero => subAssignZero
  | scaleAssign k => scaleAssign k
  | divideAssign k => divideAssign k
  | scaleAssignBy k => scaleAssignBy k
  | divideAssignBy k => divideAssignBy k
  | min v => min (v.axis i)
  | max v => max (v.axis i)
  | clamp lo hi => clamp (lo.axis i) (hi.axis i)
  | lerp v t => lerp (v.axis i) t
  | sum vs => sum (vs.map (·.axis i))

variable [Scalar α]

theorem axis_apply (op : Operation d n α) (q : Quantity d n α) (i : Fin n) :
    (op.apply q).axis i = (op.axis i).apply (q.axis i) := by
  cases op with
  | of u raw => simp [apply,axis,Vector.get_eq_getElem]
  | convert u v => exact q.axis_convert i u v
  | addAssign v => simp only [apply,axis,Quantity.addAssign_eq,Quantity.axis_add]
  | subAssign v => simp only [apply,axis,Quantity.subAssign_eq,Quantity.axis_sub]
  | scaleAssign k | scaleAssignBy k =>
    simp only [apply,axis,Quantity.scaleAssign_eq,Quantity.axis_scale]
  | divideAssign k | divideAssignBy k =>
    simp only [apply,axis,Quantity.divideAssign_eq,Quantity.axis_divide]
  | _ => simp [apply,axis]

theorem axis_run (ops : List (Operation d n α)) (q : Quantity d n α) (i : Fin n) :
    (run ops q).axis i = run (ops.map (axis i)) (q.axis i) := by
  induction ops generalizing q with
  | nil => rfl
  | cons op ops ih => rw [run_cons,ih,axis_apply,List.map_cons,run_cons]

/-- What an operation makes of a number, if there is only one component. -/
def onNumber : Operation d 1 α → α → α
  | set v, _ => v.scalar
  | of u raw, _ => u.conversion.toBase (raw.get 0)
  | convert u v, x => v.conversion.toBase (u.conversion.toRaw x)
  | zero, _ => Scalar.zero
  | infinity, _ => Scalar.infinity
  | nan, _ => Scalar.nan
  | addZero, x | subZero, x | addAssignZero, x | subAssignZero, x => x
  | neg, x => -x
  | abs, x => Scalar.abs x
  | add v, x | addAssign v, x => x + v.scalar
  | sub v, x | subAssign v, x => x - v.scalar
  | subFrom v, x => v.scalar - x
  | scale k, x | scaleAssign k, x => x * k
  | divide k, x | divideAssign k, x => x / k
  | scaleAssignBy k, x => x * k.scalar
  | divideAssignBy k, x => x / k.scalar
  | min v, x => Scalar.min x v.scalar
  | max v, x => Scalar.max x v.scalar
  | clamp lo hi, x => Scalar.min (Scalar.max x lo.scalar) hi.scalar
  | lerp v t, x => x + (v.scalar - x) * t
  | sum vs, x => (vs.map (·.scalar)).foldl (· + ·) (Scalar.zero + x)

theorem scalar_apply (op : Operation d 1 α) (q : Quantity d 1 α) :
    (op.apply q).scalar = op.onNumber q.scalar := by
  cases op with
  | of u raw => exact Vector.get_map raw u.conversion.toBase 0
  | convert u v => simp [apply,onNumber,UnitOf.of,UnitOf.valueOf,Quantity.scalar]
  | zero | infinity | nan => rfl
  | addAssign v => simp [apply,onNumber,Quantity.addAssign_eq,Quantity.add_eq]
  | subAssign v => simp [apply,onNumber,Quantity.subAssign_eq,Quantity.sub_eq]
  | scaleAssign k | scaleAssignBy k =>
    simp [apply,onNumber,Quantity.scaleAssign_eq,Quantity.scale]
  | divideAssign k | divideAssignBy k =>
    simp [apply,onNumber,Quantity.divideAssign_eq,Quantity.divide]
  | add v => simp [apply,onNumber,Quantity.add_eq]
  | sub v | subFrom v => simp [apply,onNumber,Quantity.sub_eq]
  | neg | abs | scale k | divide k =>
    simp [apply,onNumber,Quantity.neg_eq,Quantity.abs,Quantity.scale,Quantity.divide]
  | min v | max v | clamp lo hi | lerp v t =>
    simp [apply,onNumber,Quantity.clamp,Quantity.min,Quantity.max,Quantity.lerp]
  | sum vs =>
    rw [apply,Quantity.sum,List.foldl_cons,Quantity.scalar_foldl_add,Quantity.add_eq,
      Quantity.scalar_zipWith]
    rfl
  | _ => rfl

theorem scalar_run (ops : List (Operation d 1 α)) (q : Quantity d 1 α) :
    (run ops q).scalar = ops.foldl (fun x op => op.onNumber x) q.scalar := by
  induction ops generalizing q with
  | nil => rfl
  | cons op ops ih => rw [run_cons,ih,scalar_apply,List.foldl_cons]

/-- Number by number: no component ever looks at another one. -/
theorem scalar_axis_run (ops : List (Operation d n α)) (q : Quantity d n α) (i : Fin n) :
    ((run ops q).axis i).scalar =
      ops.foldl (fun x op => (op.axis i).onNumber x) (q.axis i).scalar := by
  rw [axis_run,scalar_run,List.foldl_map]

/-- What can be asked of a vector quantity, answered by its axes. -/
structure IsAxisWise (q : Quantity d n α) (axes : Fin n → Quantity d 1 α) : Prop where
  axis_eq : ∀ i, q.axis i = axes i
  isNaN_iff : q.isNaN = true ↔ ∃ i, (axes i).isNaN = true
  isInfinite_iff : q.isInfinite = true ↔ ∃ i, (axes i).isInfinite = true
  isFinite_iff : q.isFinite = true ↔ ∀ i, (axes i).isFinite = true
  valueOf_eq : ∀ (u : UnitOf d) i, u.valueOf (axes i) = #v[(u.valueOf q).get i]

theorem isAxisWise_axis (q : Quantity d n α) : IsAxisWise q q.axis where
  axis_eq _ := rfl
  isNaN_iff := q.isNaN_iff_axis
  isInfinite_iff := q.isInfinite_iff_axis
  isFinite_iff := q.isFinite_iff_axis
  valueOf_eq u i := q.valueOf_axis i u

/-- On every axis a run is that of a scalar quantity, in the arithmetic of its numbers, and the
questions asked on the way are answered by the axes. -/
theorem run_is_axis_wise (ops : List (Operation d n α)) (q : Quantity d n α) :
    (∀ i, (run ops q).axis i = run (ops.map (axis i)) (q.axis i) ∧
        ((run ops q).axis i).scalar =
          ops.foldl (fun x op => (op.axis i).onNumber x) (q.axis i).scalar) ∧
      ∀ k, IsAxisWise (run (ops.take k) q) fun i => run ((ops.map (axis i)).take k) (q.axis i) := by
  constructor
  · intro i
    exact ⟨axis_run ops q i,scalar_axis_run ops q i⟩
  · intro k
    have haxes : (fun i => run ((ops.map (axis i)).take k) (q.axis i)) =
        (run (ops.take k) q).axis := by
      funext i
      rw [← List.map_take,axis_run]
    rw [haxes]
    exact isAxisWise_axis _

end Operation
end Mensura
