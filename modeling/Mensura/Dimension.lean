import Mensura.Decimal
import Mensura.Text

/-! Dimensions of physical quantities: how often each base quantity is a factor. Types carry
dimensions with unbounded exponents; those met while a unit signature is read have to fit into 32
bits, and the checked operations say when they do. -/
namespace Mensura

/-- The exponents of length, mass, time, temperature and angle. -/
structure Dimension where
  L : Int := 0
  M : Int := 0
  T : Int := 0
  Θ : Int := 0
  A : Int := 0
deriving DecidableEq

namespace Dimension

def dimensionless : Dimension := {}
def length : Dimension := {L := 1}
def mass : Dimension := {M := 1}
def time : Dimension := {T := 1}
def temperature : Dimension := {Θ := 1}
def angle : Dimension := {A := 1}

def exponents (d : Dimension) : List Int := [d.L,d.M,d.T,d.Θ,d.A]

def map (f : Int → Int) (d : Dimension) : Dimension := ⟨f d.L,f d.M,f d.T,f d.Θ,f d.A⟩

def zipWith (f : Int → Int → Int) (a b : Dimension) : Dimension :=
  ⟨f a.L b.L,f a.M b.M,f a.T b.T,f a.Θ b.Θ,f a.A b.A⟩

instance : Mul Dimension := ⟨zipWith (· + ·)⟩
instance : Div Dimension := ⟨zipWith (· - ·)⟩

def pow (d : Dimension) (n : Int) : Dimension := d.map (· * n)

/-- Defined for every dimension; a root in earnest only if `n` divides the exponents. -/
def root (d : Dimension) (n : Int) : Dimension := d.map (· / n)

theorem exponents_mul (a b : Dimension) :
    (a * b).exponents = List.zipWith (· + ·) a.exponents b.exponents := rfl
theorem exponents_pow (d : Dimension) (n : Int) :
    (d.pow n).exponents = d.exponents.map (· * n) := rfl
@[simp] theorem mul_dimensionless (d : Dimension) : d * dimensionless = d := by
  cases d; simp [HMul.hMul,Mul.mul,zipWith,dimensionless]
@[simp] theorem dimensionless_mul (d : Dimension) : dimensionless * d = d := by
  cases d; simp [HMul.hMul,Mul.mul,zipWith,dimensionless]

def isDimensionless (d : Dimension) : Bool := d = dimensionless

def fits (n : Int) : Bool := -0x80000000 ≤ n && n < 0x80000000

def checked? (n : Int) : Option Int := if fits n then some n else none

theorem checked?_eq_some_iff {n k : Int} : checked? n = some k ↔ fits n = true ∧ n = k := by
  simp [checked?]

/-- The product, provided that every exponent fits. -/
def product? (a b : Dimension) : Option Dimension := do
  return ⟨← checked? (a.L + b.L),← checked? (a.M + b.M),← checked? (a.T + b.T),
    ← checked? (a.Θ + b.Θ),← checked? (a.A + b.A)⟩

def power? (d : Dimension) (n : Int) : Option Dimension := do
  return ⟨← checked? (d.L * n),← checked? (d.M * n),← checked? (d.T * n),
    ← checked? (d.Θ * n),← checked? (d.A * n)⟩

/-! The derived quantities that have names. -/

def area : Dimension := length.pow 2
def volume : Dimension := length.pow 3
def velocity : Dimension := length / time
def acceleration : Dimension := velocity / time
def frequency : Dimension := time.pow (-1)
def angularVelocity : Dimension := angle / time
def momentum : Dimension := mass * velocity
def force : Dimension := mass * acceleration
def energy : Dimension := force * length
def power : Dimension := energy / time
def pressure : Dimension := force / area
def density : Dimension := mass / volume
def perLength : Dimension := length.pow (-1)
def perMass : Dimension := mass.pow (-1)
def perTemperature : Dimension := temperature.pow (-1)
def perAngle : Dimension := angle.pow (-1)
def speedSquared : Dimension := velocity.pow 2
def quarticLength : Dimension := length.pow 4

example : power = ⟨2,1,-3,0,0⟩ ∧ pressure = ⟨-1,1,-2,0,0⟩ := by decide

def named : List (String × Dimension) :=
  [("Dimensionless",dimensionless), ("Length",length), ("Mass",mass), ("Time",time),
    ("Temperature",temperature), ("Angle",angle), ("Area",area), ("Volume",volume),
    ("Velocity",velocity), ("Acceleration",acceleration), ("Frequency",frequency),
    ("AngularVelocity",angularVelocity), ("Momentum",momentum), ("Force",force),
    ("Energy",energy), ("Power",power), ("Pressure",pressure), ("Density",density),
    ("PerLength",perLength), ("PerMass",perMass), ("PerTemperature",perTemperature),
    ("PerAngle",perAngle), ("SpeedSquared",speedSquared), ("QuarticLength",quarticLength)]

def ofName? (name : String) : Option Dimension := named.lookup name

example : ofName? "Velocity" = some ⟨1,0,-1,0,0⟩ := by decide

/-! Texts of dimensions, such as `L·T⁻²`. -/

/-- One base quantity and its exponent, which is not written if it is one. -/
def factorText (symbol : Char) (e : Int) : List Char :=
  symbol::if e = 1 then [] else (Decimal.writeInt e).map Text.raise

@[simp] theorem factorText_one (symbol : Char) : factorText symbol 1 = [symbol] := rfl

def symbols : List Char := ['L','M','T','Θ','A']

/-- The base quantities with an exponent other than zero. -/
def factors (d : Dimension) : List (Char × Int) :=
  (symbols.zip d.exponents).filter fun f => f.2 ≠ 0

def text (d : Dimension) : List Char :=
  if d = dimensionless then ['1']
  else ['·'].intercalate (d.factors.map fun f => factorText f.1 f.2)

example : text (length / time.pow 2) = "L·T⁻²".toList := by decide

def detailedText (d : Dimension) : String :=
  "Exponents([" ++ ", ".intercalate (d.exponents.map toString) ++ "])"

end Dimension
end Mensura
