/-! Binary floating-point numbers of one width. Every operation is that of the width itself:
nothing is computed in a wider format and rounded afterwards. -/
namespace Mensura
open Float.Model

class Scalar (α : Type) extends Add α, Sub α, Mul α, Div α, Neg α, BEq α where
  format : Format
  unpack : α → UnpackedFloat
  pack : UnpackedFloat → α
  lt : α → α → Bool
  le : α → α → Bool
  abs : α → α
  sqrt : α → α
  pow : α → α → α
  ofFloat : Float → α
  toFloat : α → Float

namespace Scalar

/-- The nearest value of the format, ties to the even mantissa; too large a value is packed as
an infinity. -/
def roundTo (f : Format) : UnpackedFloat → UnpackedFloat
  | .finite s m e _ => .round f s m e
  | x => x

end Scalar

instance : Scalar Float where
  format := .binary64
  unpack x := x.toModel.unpack
  pack u := .ofModel (.pack u)
  lt x y := x < y
  le x y := x ≤ y
  abs := Float.abs
  sqrt := Float.sqrt
  pow := Float.pow
  ofFloat x := x
  toFloat x := x

instance : Scalar Float32 where
  format := .binary32
  unpack x := x.toModel.unpack
  pack u := .ofModel (.pack u)
  lt x y := x < y
  le x y := x ≤ y
  abs := Float32.abs
  sqrt := Float32.sqrt
  pow := Float32.pow
  ofFloat x := .ofModel (.pack (Scalar.roundTo .binary32 x.toModel.unpack))
  toFloat x := .ofModel (.pack (Scalar.roundTo .binary64 x.toModel.unpack))

namespace Scalar
variable {α : Type} [Scalar α]

@[simp] theorem ofFloat_float (x : Float) : (ofFloat x : Float) = x := rfl
@[simp] theorem toFloat_float (x : Float) : toFloat x = x := rfl

def zero : α := pack (.zero .positive)
def one : α := pack (.ofNat (format α) 1)
def infinity : α := pack (.infinity .positive)
def nan : α := pack .notANumber

def isNaN (x : α) : Bool :=
  match unpack x with
  | .notANumber => true
  | _ => false

def isInfinite (x : α) : Bool :=
  match unpack x with
  | .infinity _ => true
  | _ => false

def isFinite (x : α) : Bool := !isNaN x && !isInfinite x

/-- The sign bit; zeros have one too. -/
def isNegative (x : α) : Bool :=
  match unpack x with
  | .infinity s | .zero s | .finite s .. => s == .negative
  | .notANumber => false

def isZero (x : α) : Bool :=
  match unpack x with
  | .zero _ => true
  | _ => false

theorem isFinite_eq_false_iff (x : α) :
    isFinite x = false ↔ isNaN x = true ∨ isInfinite x = true := by
  cases h : isNaN x <;> cases hi : isInfinite x <;> simp [isFinite,h,hi]

def signum (x : α) : α := if isNaN x then nan else if isNegative x then -one else one

/-- The smaller of two numbers; the number, if the other operand is none. -/
def min (x y : α) : α := if lt x y || isNaN y then x else y

def max (x y : α) : α := if lt y x || isNaN y then x else y

def compare (x y : α) : Option Ordering :=
  if lt x y then some .lt else if lt y x then some .gt else if x == y then some .eq else none

def ofInt (n : Int) : α := pack (.ofInt (format α) n)

/-- The value nearest to `m * 10 ^ e`. -/
def ofDecimal (m : Nat) (e : Int) : α := pack (.ofScientific (format α) m e)

/-- The number in another width. Nothing is refused: what is too large becomes infinite. -/
def convert? {β : Type} [Scalar β] (x : α) : Option β := some (ofFloat (toFloat x))

/-! Whole powers and whole roots. A power multiplies by repeated squares, so its result is fixed
to the last bit; a cube root is the nearest value. -/

/-- `r` times the power `b` of `a`. -/
def timesPow (r a : α) (b : Nat) : α :=
  let r := if b % 2 = 1 then r * a else r
  if b / 2 = 0 then r else timesPow r (a * a) (b / 2)
termination_by b
decreasing_by omega

def powInt (x : α) (n : Int) : α :=
  let r := timesPow one x n.natAbs
  if n < 0 then one / r else r

theorem powInt_one (x : α) : powInt x 1 = one * x := by
  simp [powInt,timesPow]

def cube (n : Nat) : Nat := n * n * n

/-- The largest `r` below `acc + 2 ^ bits` whose cube is at most `n`, given that `acc` is one. -/
def cubeRootFrom (n : Nat) : Nat → Nat → Nat
  | 0, acc => acc
  | bits+1, acc =>
    let r := acc + Nat.pow 2 bits
    cubeRootFrom n bits (if cube r ≤ n then r else acc)

def cubeRootNat (n : Nat) : Nat := cubeRootFrom n (n.log2 / 3 + 1) 0

example : cubeRootNat 26 = 2 ∧ cubeRootNat 27 = 3 ∧ cubeRootNat 0 = 0 := by decide

/-- Where the cube root of `n` lies above its whole part `r`. -/
def cubeRootAccuracy (n r : Nat) : UnpackedFloat.Accuracy :=
  if cube r = n then .exact else .inexact (Ord.compare (8 * n) (cube (2 * r + 1)))

/-- The significand is widened until its root has more bits than the format keeps and the
exponent is a multiple of three. -/
def cbrt (x : α) : α :=
  match unpack x with
  | .finite s m e _ =>
    let k := 3 * ((format α).mantissaBits + 3) + (e % 3).toNat
    let n := m <<< k
    let r := cubeRootNat n
    pack (.roundWithAccuracy (format α) s r ((e - k) / 3) (cubeRootAccuracy n r))
  | _ => x

/-- Odd roots of negative numbers are real and negative. -/
def root (n : Int) (x : α) : α :=
  match n with
  | 1 => x
  | 2 => sqrt x
  | 3 => cbrt x
  | n =>
    let exponent : α := one / ofInt n
    if n % 2 ≠ 0 ∧ lt x zero then -pow (-x) exponent else pow x exponent

end Scalar
end Mensura
