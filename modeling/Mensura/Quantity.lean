import Mensura.Dimension
import Mensura.Scalar
import Mensura.Unit

/-! Quantities: one, two or three components in base units, with the dimension as part of the
type. -/
namespace Mensura

structure Quantity (d : Dimension) (n : Nat) (α : Type) where
  value : Vector α n

namespace Components

def axisNames : List String := ["x","y","z"]

def axisName (i : Nat) : String := axisNames.getD i ""

end Components

namespace Quantity
variable {d : Dimension} {n : Nat} {α : Type}

def ofScalar (x : α) : Quantity d 1 α := ⟨#v[x]⟩

/-- The component of a quantity that has only one. -/
def scalar (q : Quantity d 1 α) : α := q.value[0]

def axis (q : Quantity d n α) (i : Fin n) : Quantity d 1 α := ofScalar q.value[i]

end Quantity

namespace UnitOf
variable {d : Dimension} {n : Nat} {α : Type} [Scalar α]

def of (u : UnitOf d) (raw : Vector α n) : Quantity d n α := ⟨raw.map u.conversion.toBase⟩

def valueOf (u : UnitOf d) (q : Quantity d n α) : Vector α n := q.value.map u.conversion.toRaw

@[simp] theorem axis_of (u : UnitOf d) (raw : Vector α n) (i : Fin n) :
    (u.of raw).axis i = u.of #v[raw[i]] := by
  simp [of,Quantity.axis,Quantity.ofScalar]

end UnitOf

/-! Arithmetic of quantities of one dimension. Everything is done component by component, so every
operation commutes with taking one axis. -/

namespace Components

/-- Every component in turn gets its new value in place. -/
def assign {n : Nat} {α : Type} (f : Fin n → α → α) (v : Vector α n) : Vector α n :=
  (List.finRange n).foldl (fun v (i : Fin n) => v.set i (f i (v.get i)) i.isLt) v

end Components

namespace Quantity
variable {d e : Dimension} {n : Nat} {α β : Type}

def map (f : α → β) (q : Quantity d n α) : Quantity e n β := ⟨q.value.map f⟩

def zipWith (f : α → α → α) (a b : Quantity d n α) : Quantity d n α :=
  ⟨a.value.zipWith f b.value⟩

def splat (x : α) : Quantity d n α := ⟨.replicate n x⟩

@[simp] theorem axis_map (f : α → β) (q : Quantity d n α) (i : Fin n) :
    (q.map f : Quantity e n β).axis i = (q.axis i).map f := by
  simp [axis,ofScalar,map]
@[simp] theorem axis_zipWith (f : α → α → α) (a b : Quantity d n α) (i : Fin n) :
    (a.zipWith f b).axis i = (a.axis i).zipWith f (b.axis i) := by
  simp [axis,ofScalar,zipWith]
@[simp] theorem axis_splat (x : α) (i : Fin n) :
    (splat x : Quantity d n α).axis i = splat x := by
  simp [axis,ofScalar,splat]

variable [Scalar α] [Scalar β]

def zero : Quantity d n α := splat Scalar.zero
def infinity : Quantity d n α := splat Scalar.infinity
def nan : Quantity d n α := splat Scalar.nan

instance : Add (Quantity d n α) := ⟨zipWith (· + ·)⟩
instance : Sub (Quantity d n α) := ⟨zipWith (· - ·)⟩
instance : Neg (Quantity d n α) := ⟨map (- ·)⟩

theorem add_eq (a b : Quantity d n α) : a + b = a.zipWith (· + ·) b := rfl
theorem sub_eq (a b : Quantity d n α) : a - b = a.zipWith (· - ·) b := rfl
theorem neg_eq (a : Quantity d n α) : -a = a.map (- ·) := rfl

def scale (q : Quantity d n α) (k : α) : Quantity d n α := q.map (· * k)
def divide (q : Quantity d n α) (k : α) : Quantity d n α := q.map (· / k)
def abs (q : Quantity d n α) : Quantity d n α := q.map Scalar.abs
def min (a b : Quantity d n α) : Quantity d n α := a.zipWith Scalar.min b
def max (a b : Quantity d n α) : Quantity d n α := a.zipWith Scalar.max b
def clamp (q lo hi : Quantity d n α) : Quantity d n α := (q.max lo).min hi

/-- From the first quantity at `t = 0` towards the second. -/
def lerp (a b : Quantity d n α) (t : α) : Quantity d n α := a.zipWith (fun x y => x + (y - x) * t) b

/-! In place, one component after the other. -/

def assign (f : Fin n → α → α) (q : Quantity d n α) : Quantity d n α :=
  ⟨Components.assign f q.value⟩

def addAssign (q v : Quantity d n α) : Quantity d n α := q.assign fun i x => x + v.value.get i
def subAssign (q v : Quantity d n α) : Quantity d n α := q.assign fun i x => x - v.value.get i
def scaleAssign (q : Quantity d n α) (k : α) : Quantity d n α := q.assign fun _ x => x * k
def divideAssign (q : Quantity d n α) (k : α) : Quantity d n α := q.assign fun _ x => x / k

/-- From left to right. -/
def sum (qs : List (Quantity d n α)) : Quantity d n α := qs.foldl (· + ·) zero

def signum (q : Quantity d n α) : Vector α n := q.value.map Scalar.signum

/-- In another width; what is too large becomes infinite. -/
def cast (q : Quantity d n α) : Quantity d n β := q.map fun x => Scalar.ofFloat (Scalar.toFloat x)

/-- With other components, provided that every one of them can be converted. -/
def castWith? (convert : α → Option β) (q : Quantity d n α) : Option (Quantity d n β) :=
  (q.value.mapM convert).map mk

/-- In another width, provided that every component has a number there. -/
def cast? (q : Quantity d n α) : Option (Quantity d n β) := q.castWith? Scalar.convert?

def isNaN (q : Quantity d n α) : Bool := q.value.any Scalar.isNaN
def isInfinite (q : Quantity d n α) : Bool := q.value.any Scalar.isInfinite
def isFinite (q : Quantity d n α) : Bool := q.value.all Scalar.isFinite

def beq (a b : Quantity d n α) : Bool := (a.value.zipWith (· == ·) b.value).all id

instance : BEq (Quantity d n α) := ⟨beq⟩

def compare (a b : Quantity d 1 α) : Option Ordering := Scalar.compare a.scalar b.scalar

end Quantity

/-! Operations on a quantity that keep its dimension, as data. The zero of every dimension is a
neutral element and not a number: adding it changes nothing, not even the sign of a zero. An
assignment has the effect of its binary form, and so has a dimensionless factor that of its
number. -/

inductive Operation (d : Dimension) (n : Nat) (α : Type)
  | set (v : Quantity d n α)
  | of (u : UnitOf d) (raw : Vector α n)
  /-- The raw numbers in the first unit, taken in the second one. -/
  | convert (u v : UnitOf d)
  | zero
  | infinity
  | nan
  | addZero
  | subZero
  | neg
  | abs
  | add (v : Quantity d n α)
  | sub (v : Quantity d n α)
  | subFrom (v : Quantity d n α)
  | scale (k : α)
  | divide (k : α)
  | addAssign (v : Quantity d n α)
  | subAssign (v : Quantity d n α)
  | addAssignZero
  | subAssignZero
  | scaleAssign (k : α)
  | divideAssign (k : α)
  | scaleAssignBy (k : Quantity .dimensionless 1 α)
  | divideAssignBy (k : Quantity .dimensionless 1 α)
  | min (v : Quantity d n α)
  | max (v : Quantity d n α)
  | clamp (lo hi : Quantity d n α)
  | lerp (v : Quantity d n α) (t : α)
  | sum (vs : List (Quantity d n α))

namespace Operation
variable {d : Dimension} {n : Nat} {α : Type} [Scalar α]

def apply : Operation d n α → Quantity d n α → Quantity d n α
  | set v, _ => v
  | of u raw, _ => u.of raw
  | convert u v, q => v.of (u.valueOf q)
  | zero, _ => .zero
  | infinity, _ => .infinity
  | nan, _ => .nan
  | addZero, q => q
  | subZero, q => q
  | neg, q => -q
  | abs, q => q.abs
  | add v, q => q + v
  | sub v, q => q - v
  | subFrom v, q => v - q
  | scale k, q => q.scale k
  | divide k, q => q.divide k
  | addAssign v, q => q.addAssign v
  | subAssign v, q => q.subAssign v
  | addAssignZero, q => q
  | subAssignZero, q => q
  | scaleAssign k, q => q.scaleAssign k
  | divideAssign k, q => q.divideAssign k
  | scaleAssignBy k, q => q.scaleAssign k.scalar
  | divideAssignBy k, q => q.divideAssign k.scalar
  | min v, q => q.min v
  | max v, q => q.max v
  | clamp lo hi, q => q.clamp lo hi
  | lerp v t, q => q.lerp v t
  | sum vs, q => .sum (q::vs)

def run (ops : List (Operation d n α)) (q : Quantity d n α) : Quantity d n α :=
  ops.foldl (fun q op => op.apply q) q

@[simp] theorem run_cons (op : Operation d n α) (ops : List (Operation d n α))
    (q : Quantity d n α) : run (op::ops) q = run ops (op.apply q) := rfl

end Operation

/-! Vectors in the plane and in space: products, lengths and directions. -/

namespace Components
variable {n : Nat} {α : Type} [Scalar α]

/-- The products of the components are added from left to right. -/
def dot (a b : Vector α n) : α :=
  match (a.zipWith (· * ·) b).toList with
  | [] => Scalar.zero
  | x::xs => xs.foldl (· + ·) x

def norm (a : Vector α n) : α := Scalar.sqrt (dot a a)

def normalize (a : Vector α n) : Vector α n := a.map (· / norm a)

def cross (a b : Vector α 3) : Vector α 3 :=
  #v[a[1] * b[2] - a[2] * b[1],a[2] * b[0] - a[0] * b[2],a[0] * b[1] - a[1] * b[0]]

def extend (a : Vector α 2) (z : α) : Vector α 3 := #v[a[0],a[1],z]

def truncate (a : Vector α 3) : Vector α 2 := #v[a[0],a[1]]

/-- Every component moves one place forward, the first one to the end. -/
def rotate (a : Vector α n) : Vector α n :=
  .ofFn fun i => a.get ⟨(i.val + 1) % n,Nat.mod_lt _ (Nat.zero_lt_of_lt i.isLt)⟩

end Components

namespace Quantity
variable {d e : Dimension} {n : Nat} {α : Type} [Scalar α]

def norm (q : Quantity d n α) : Quantity d 1 α := .ofScalar (Components.norm q.value)

def distance (a b : Quantity d n α) : Quantity d 1 α := (a - b).norm

def mul (a : Quantity d n α) (b : Quantity e n α) : Quantity (d * e) n α :=
  ⟨a.value.zipWith (· * ·) b.value⟩

def div (a : Quantity d n α) (b : Quantity e n α) : Quantity (d / e) n α :=
  ⟨a.value.zipWith (· / ·) b.value⟩

def mulScalar (a : Quantity d n α) (b : Quantity e 1 α) : Quantity (d * e) n α :=
  ⟨a.value.map (· * b.scalar)⟩

def divScalar (a : Quantity d n α) (b : Quantity e 1 α) : Quantity (d / e) n α :=
  ⟨a.value.map (· / b.scalar)⟩

def scalarMul (a : Quantity d 1 α) (b : Quantity e n α) : Quantity (d * e) n α :=
  ⟨b.value.map (a.scalar * ·)⟩

def dot (a : Quantity d n α) (b : Quantity e n α) : Quantity (d * e) 1 α :=
  .ofScalar (Components.dot a.value b.value)

def cross (a : Quantity d 3 α) (b : Quantity e 3 α) : Quantity (d * e) 3 α :=
  ⟨Components.cross a.value b.value⟩

def pow (q : Quantity d n α) (k : Int) : Quantity (d.pow k) n α := q.map (Scalar.powInt · k)

def root (q : Quantity d n α) (k : Int) : Quantity (d.root k) n α := q.map (Scalar.root k)

def recip (k : α) (q : Quantity d 1 α) : Quantity (.dimensionless / d) 1 α := q.map (k / ·)

end Quantity

/-! Quantities whose dimension changes from one operation to the next. A result without a dimension
is a plain number or vector; it goes on as a dimensionless quantity. -/

/-- A quantity of any dimension and number of components. -/
structure Composite (α : Type) where
  dimension : Dimension
  axes : Nat
  quantity : Quantity dimension axes α

namespace Composite
variable {α : Type}

def ofQuantity {d : Dimension} {n : Nat} (q : Quantity d n α) : Composite α := ⟨d,n,q⟩

def isPlain (c : Composite α) : Bool := c.dimension.isDimensionless

/-- The same quantity seen as one of `n` components, if it has as many. -/
def withAxes? (n : Nat) (c : Composite α) : Option (Quantity c.dimension n α) :=
  if h : c.axes = n then some ⟨c.quantity.value.cast h⟩ else none

variable [Scalar α]

/-- Vectors multiply component by component; a scalar multiplies a vector from either side. -/
def mul? (a b : Composite α) : Option (Composite α) :=
  match b.withAxes? a.axes,b.withAxes? 1,a.withAxes? 1 with
  | some q,_,_ => some (.ofQuantity (a.quantity.mul q))
  | none,some k,_ => some (.ofQuantity (a.quantity.mulScalar k))
  | none,none,some k => some (.ofQuantity (k.scalarMul b.quantity))
  | none,none,none => none

/-- A scalar is not divided by a vector. -/
def div? (a b : Composite α) : Option (Composite α) :=
  match b.withAxes? a.axes,b.withAxes? 1 with
  | some q,_ => some (.ofQuantity (a.quantity.div q))
  | none,some k => some (.ofQuantity (a.quantity.divScalar k))
  | none,none => none

def dot? (a b : Composite α) : Option (Composite α) :=
  (b.withAxes? a.axes).map fun q => .ofQuantity (a.quantity.dot q)

def cross? (a b : Composite α) : Option (Composite α) :=
  match a.withAxes? 3,b.withAxes? 3 with
  | some p,some q => some (.ofQuantity (p.cross q))
  | _,_ => none

def pow (c : Composite α) (k : Int) : Composite α := .ofQuantity (c.quantity.pow k)

def root (c : Composite α) (k : Int) : Composite α := .ofQuantity (c.quantity.root k)

def recip? (k : α) (c : Composite α) : Option (Composite α) :=
  (c.withAxes? 1).map fun q => .ofQuantity (q.recip k)

def norm (c : Composite α) : Composite α := .ofQuantity c.quantity.norm

end Composite

/-! Texts of quantities. One component is written as a number, more in brackets; the style of a text
is that of each component. -/

namespace Components
variable {n : Nat} {α : Type} [Scalar α]

def styled (st : Decimal.Style) (v : Vector α n) : String :=
  match v.toList.map fun x => String.ofList (Decimal.styled st x) with
  | [s] => s
  | ss => "(" ++ ", ".intercalate ss ++ ")"

def detailedText (v : Vector α n) : String :=
  match v.toList.map fun x => String.ofList (Decimal.detailedText x) with
  | [s] => s
  | ss =>
    "Vector" ++ toString n ++ " \x7b " ++
      ", ".intercalate (axisNames.zipWith (fun a s => a ++ ": " ++ s) ss) ++ " \x7d"

end Components

namespace Quantity
variable {d : Dimension} {n : Nat} {α : Type} [Scalar α]

def styled (st : Decimal.Style) (q : Quantity d n α) : String := Components.styled st q.value

def detailedText (q : Quantity d n α) : String :=
  "Quantity(" ++ Components.detailedText q.value ++ " " ++ String.ofList d.text ++ ")"

end Quantity
end Mensura
