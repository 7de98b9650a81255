import Mensura.Decimal
import Mensura.Dimension

/-! Units: conversions between raw numbers of a unit and numbers of the base unit, by a factor, or
by an offset and a factor. The parameters are rounded to the width of the number first. -/
namespace Mensura

inductive Conversion
  | scale (factor : Float)
  | affine (offset factor : Float)
deriving BEq

namespace Conversion
variable {α : Type} [Scalar α]

def factor : Conversion → Float
  | scale f => f
  | affine _ f => f

def offset? : Conversion → Option Float
  | scale _ => none
  | affine o _ => some o

def isAffine (c : Conversion) : Bool := c.offset?.isSome

/-- The factor one. -/
def identity : Conversion := .scale Scalar.one

def toBase : Conversion → α → α
  | scale f, x => x * Scalar.ofFloat f
  | affine o f, x => (x + Scalar.ofFloat o) * Scalar.ofFloat f

def toRaw : Conversion → α → α
  | scale f, x => x / Scalar.ofFloat f
  | affine o f, x => x / Scalar.ofFloat f - Scalar.ofFloat o

def caption : Conversion → String
  | scale _ => "Scale"
  | affine .. => "Affine"

def parameters : Conversion → List (String × Float)
  | scale f => [("factor",f)]
  | affine o f => [("offset",o),("factor",f)]

def parameterText (p : String × Float) : String :=
  p.1 ++ ": " ++ String.ofList (Decimal.detailedText p.2)

def text (c : Conversion) : String :=
  c.caption ++ " \x7b " ++ ", ".intercalate (c.parameters.map parameterText) ++ " \x7d"

/-- One parameter a line; the lines after the first are indented by the given number of blanks. -/
def blockText (indent : Nat) (c : Conversion) : String :=
  let margin := "".pushn ' ' indent
  c.caption ++ " \x7b\n" ++
    String.join (c.parameters.map fun p => margin ++ "    " ++ parameterText p ++ ",\n") ++
    margin ++ "\x7d"

end Conversion

/-! Units of a dimension. Those without an offset multiply and divide, and so do their
dimensions. -/

structure UnitOf (d : Dimension) where
  conversion : Conversion
deriving BEq

/-- A unit that converts by a factor alone. -/
structure ScaleOf (d : Dimension) where
  factor : Float
deriving BEq

namespace ScaleOf
variable {a b d : Dimension}

def toUnit (u : ScaleOf d) : UnitOf d := ⟨.scale u.factor⟩

instance : Coe (ScaleOf d) (UnitOf d) := ⟨toUnit⟩

def one : ScaleOf .dimensionless := ⟨Scalar.one⟩

def scaledBy (u : ScaleOf d) (k : Float) : ScaleOf d := ⟨u.factor * k⟩
def times (u : ScaleOf a) (v : ScaleOf b) : ScaleOf (a * b) := ⟨u.factor * v.factor⟩
def per (u : ScaleOf a) (v : ScaleOf b) : ScaleOf (a / b) := ⟨u.factor / v.factor⟩
def squared (u : ScaleOf d) : ScaleOf (d.pow 2) := ⟨u.factor * u.factor⟩
def cubed (u : ScaleOf d) : ScaleOf (d.pow 3) := ⟨u.factor * u.factor * u.factor⟩
def inverse (u : ScaleOf d) : ScaleOf (d.pow (-1)) := ⟨Scalar.one / u.factor⟩

end ScaleOf

namespace UnitOf
variable {d : Dimension}

def text (u : UnitOf d) : String :=
  "Unit \x7b ratio: " ++ u.conversion.text ++ ", dimension: " ++ String.ofList d.text ++ " \x7d"

def blockText (u : UnitOf d) : String :=
  "Unit \x7b\n    ratio: " ++ u.conversion.blockText 4 ++ ",\n    dimension: " ++
    String.ofList d.text ++ ",\n\x7d"

end UnitOf

/-! The units in common use. Every one but the offset temperature scales is built from others by
multiplication and division, and its dimension with it. -/
namespace CommonUnit

def pico : ScaleOf .dimensionless := ⟨1e-12⟩
def nano : ScaleOf .dimensionless := ⟨1e-9⟩
def micro : ScaleOf .dimensionless := ⟨1e-6⟩
def milli : ScaleOf .dimensionless := ⟨1e-3⟩
def centi : ScaleOf .dimensionless := ⟨1e-2⟩
def deci : ScaleOf .dimensionless := ⟨1e-1⟩
def hecto : ScaleOf .dimensionless := ⟨1e2⟩
def kilo : ScaleOf .dimensionless := ⟨1e3⟩
def mega : ScaleOf .dimensionless := ⟨1e6⟩
def giga : ScaleOf .dimensionless := ⟨1e9⟩

def pi : Float := 3.141592653589793
def tau : Float := 6.283185307179586

/-- In seconds. -/
def julianYear : Float := 365.25 * 86400

def meter : ScaleOf .length := ⟨1⟩
def kilometer : ScaleOf .length := kilo.times meter
def centimeter : ScaleOf .length := centi.times meter
def millimeter : ScaleOf .length := milli.times meter
def micrometer : ScaleOf .length := micro.times meter
def nanometer : ScaleOf .length := nano.times meter
def inch : ScaleOf .length := ⟨0.0254⟩
def foot : ScaleOf .length := inch.scaledBy 12
def yard : ScaleOf .length := foot.scaledBy 3
def mile : ScaleOf .length := yard.scaledBy 1760
def nauticalMile : ScaleOf .length := ⟨1852⟩
def astronomicalUnit : ScaleOf .length := ⟨149597870700⟩
def lightYear : ScaleOf .length := ⟨299792458 * julianYear⟩
def parsec : ScaleOf .length := astronomicalUnit.scaledBy (648000 / pi)
def squareMeter : ScaleOf .area := meter.squared
def squareKilometer : ScaleOf .area := kilometer.squared
def hectare : ScaleOf .area := ⟨1e4⟩
def cubicMeter : ScaleOf .volume := meter.cubed
def liter : ScaleOf .volume := ⟨1e-3⟩
def milliliter : ScaleOf .volume := milli.times liter

def kilogram : ScaleOf .mass := ⟨1⟩
def gram : ScaleOf .mass := ⟨1e-3⟩
def milligram : ScaleOf .mass := milli.times gram
def tonne : ScaleOf .mass := kilo.times kilogram
def pound : ScaleOf .mass := ⟨0.45359237⟩
def ounce : ScaleOf .mass := pound.scaledBy (1 / 16)

def second : ScaleOf .time := ⟨1⟩
def millisecond : ScaleOf .time := milli.times second
def microsecond : ScaleOf .time := micro.times second
def nanosecond : ScaleOf .time := nano.times second
def minute : ScaleOf .time := second.scaledBy 60
def hour : ScaleOf .time := minute.scaledBy 60
def day : ScaleOf .time := hour.scaledBy 24
def week : ScaleOf .time := day.scaledBy 7
def year : ScaleOf .time := day.scaledBy 365.25

def kelvin : ScaleOf .temperature := ⟨1⟩
def celsius : UnitOf .temperature := ⟨.affine 273.15 1⟩
def fahrenheit : UnitOf .temperature := ⟨.affine 459.67 (5 / 9)⟩
def rankine : ScaleOf .temperature := ⟨5 / 9⟩

def radian : ScaleOf .angle := ⟨1⟩
def milliradian : ScaleOf .angle := milli.times radian
def degree : ScaleOf .angle := ⟨pi / 180⟩
def arcminute : ScaleOf .angle := degree.scaledBy (1 / 60)
def arcsecond : ScaleOf .angle := arcminute.scaledBy (1 / 60)
def revolution : ScaleOf .angle := ⟨tau⟩

def metersPerSecond : ScaleOf .velocity := meter.per second
def kilometersPerHour : ScaleOf .velocity := kilometer.per hour
def milesPerHour : ScaleOf .velocity := mile.per hour
def knot : ScaleOf .velocity := nauticalMile.per hour
def mach : ScaleOf .velocity := metersPerSecond.scaledBy 330
def metersPerSecondSquared : ScaleOf .acceleration := metersPerSecond.per second
def standardGravity : ScaleOf .acceleration := metersPerSecondSquared.scaledBy 9.80665
def newton : ScaleOf .force := kilogram.times metersPerSecondSquared
def kilonewton : ScaleOf .force := kilo.times newton
def joule : ScaleOf .energy := newton.times meter
def kilojoule : ScaleOf .energy := kilo.times joule
def calorie : ScaleOf .energy := joule.scaledBy 4.184
def kilocalorie : ScaleOf .energy := kilo.times calorie
def watt : ScaleOf .power := joule.per second
def kilowatt : ScaleOf .power := kilo.times watt
def kilowattHour : ScaleOf .energy := kilowatt.times hour
def pascal : ScaleOf .pressure := newton.per meter.squared
def kilopascal : ScaleOf .pressure := kilo.times pascal
def bar : ScaleOf .pressure := pascal.scaledBy 1e5
def atmosphere : ScaleOf .pressure := pascal.scaledBy 101325
def hertz : ScaleOf .frequency := second.inverse
def kilohertz : ScaleOf .frequency := kilo.times hertz
def radiansPerSecond : ScaleOf .angularVelocity := radian.per second
def revolutionsPerMinute : ScaleOf .angularVelocity := (radian.scaledBy tau).per minute
def kilogramsPerCubicMeter : ScaleOf .density := kilogram.per meter.cubed

end CommonUnit
end Mensura
