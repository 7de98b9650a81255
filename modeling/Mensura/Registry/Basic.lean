import Mensura.Measurement
import Mensura.Quantity
import Mensura.Registry.Outcome
import Mensura.Signature
import Mensura.Unit

/-! Unit registries. Signatures are resolved to a dimension and a conversion, quantities are read,
and new units are inserted or defined by a measurement in known ones. -/
namespace Mensura

structure Registry where
  entries : List Entry

/-- What a signature stands for. -/
structure Resolution where
  dimension : Dimension
  conversion : Conversion

def Resolution.identity : Resolution := ⟨.dimensionless,.identity⟩

namespace Registry

def empty : Registry := ⟨[]⟩

def size (r : Registry) : Nat := r.entries.length

def lookup (r : Registry) (symbol : List Char) : Option Entry :=
  r.entries.find? fun e => e.symbol == symbol

def knows (r : Registry) (symbol : List Char) : Bool := (r.lookup symbol).isSome

/-- In the order of code points. -/
def symbols (r : Registry) : List (List Char) :=
  (r.entries.map Entry.symbol).mergeSort fun s t => !List.lex t s

theorem symbol_of_lookup {r : Registry} {symbol : List Char} {e : Entry}
    (h : r.lookup symbol = some e) : e.symbol = symbol := by
  simpa using List.find?_some h

def add (r : Registry) (e : Entry) : Registry := ⟨e::r.entries⟩

theorem lookup_add (r : Registry) (e : Entry) (symbol : List Char) :
    (r.add e).lookup symbol = if e.symbol = symbol then some e else r.lookup symbol := by
  by_cases h : e.symbol = symbol <;> simp [lookup,add,h]

@[simp] theorem size_add (r : Registry) (e : Entry) : (r.add e).size = r.size + 1 := rfl

/-- A symbol is registered at most once. -/
def insert (r : Registry) (e : Entry) : Outcome RegistryError Registry := do
  match e.fault? with
  | some fault => .fail (.invalidEntry e.symbol fault)
  | none =>
    if r.knows e.symbol then .fail (.duplicateSymbol e.symbol)
    else
      .report (.registered e)
      return r.add e

/-- The unit with an offset that the terms consist of. -/
def offsetUnit? (r : Registry) : List Signature.Term → Option Entry
  | [t] => (r.lookup t.symbol).filter fun e => e.conversion.isAffine && t.power = 1
  | _ => none

/-- The product of the terms, times what is already known of it. -/
def product (r : Registry) (signature : List Char) :
    List Signature.Term → Dimension → Float → Except ReadError (Dimension × Float)
  | [], d, f => .ok (d,f)
  | t::ts, d, f =>
    match r.lookup t.symbol with
    | none => .error (.unknownUnit t.symbol)
    | some e =>
      if e.conversion.isAffine then .error (.affineInCompound t.symbol)
      else
        match (e.dimension.power? t.power).bind d.product? with
        | none => .error (.malformedSignature signature .exponentOverflow)
        | some d => product r signature ts d (f * Scalar.powInt e.conversion.factor t.power)

def terms (r : Registry) (signature : List Char) : Except ReadError (List Signature.Term) :=
  (Signature.read r.knows signature).mapError (.malformedSignature signature)

def resolve (r : Registry) (signature : List Char) : Outcome ReadError Resolution := do
  let ts ← .ofExcept (r.terms signature)
  match r.offsetUnit? ts with
  | some e =>
    .report (.resolvedOffset signature e.symbol)
    return ⟨e.dimension,e.conversion⟩
  | none =>
    let (d,f) ← .ofExcept (r.product signature ts .dimensionless Scalar.one)
    if isUsable f then
      .report (.resolved signature d f)
      return ⟨d,.scale f⟩
    else .fail (.malformedSignature signature .factorOutOfRange)

/-- A number and the conversion of its unit; without a unit the number is dimensionless. -/
def measure (r : Registry) (text : List Char) : Outcome ReadError (Float × Resolution) := do
  let (x,signature) ← .ofExcept (Measurement.split text)
  if signature = [] then return (x,.identity)
  else
    let c ← r.resolve signature
    return (x,c)

/-- The conversion is computed in double width and then rounded to the width of the result. -/
def read {α : Type} [Scalar α] (r : Registry) (d : Dimension) (text : List Char) :
    Outcome ReadError (Quantity d 1 α) := do
  let (x,c) ← r.measure text
  if c.dimension = d then return .ofScalar (Scalar.ofFloat (c.conversion.toBase x))
  else .fail (.dimensionMismatch d c.dimension)

def define (r : Registry) (symbol definition : List Char) : Outcome RegistryError Registry := do
  let (x,c) ← (r.measure definition).mapError (.definition symbol)
  if c.conversion.isAffine then .fail (.invalidEntry symbol .offsetInDefinition)
  else r.insert ⟨symbol,c.dimension,.scale (x * c.conversion.factor)⟩

/-! The registry of the built-in units: every unit under its symbol, and some under an alias. -/

open CommonUnit

/-- A unit by its full name and its symbol. -/
structure Row where
  name : String
  symbol : String
  dimension : Dimension
  conversion : Conversion

def Row.entry (r : Row) : Entry := ⟨r.symbol.toList,r.dimension,r.conversion⟩

def Row.unit (r : Row) : UnitOf r.dimension := ⟨r.conversion⟩

def row {d : Dimension} (name symbol : String) (u : UnitOf d) : Row := ⟨name,symbol,d,u.conversion⟩

def scaleRow {d : Dimension} (name symbol : String) (u : ScaleOf d) : Row :=
  row name symbol u.toUnit

def rows : List Row := [
  scaleRow "meter" "m" meter, scaleRow "kilometer" "km" kilometer,
  scaleRow "centimeter" "cm" centimeter, scaleRow "millimeter" "mm" millimeter,
  scaleRow "micrometer" "um" micrometer, scaleRow "nanometer" "nm" nanometer,
  scaleRow "inch" "inch" inch, scaleRow "foot" "ft" foot, scaleRow "yard" "yd" yard,
  scaleRow "mile" "mi" mile, scaleRow "nautical mile" "nmi" nauticalMile,
  scaleRow "au" "au" astronomicalUnit, scaleRow "light year" "ly" lightYear,
  scaleRow "parsec" "pc" parsec, scaleRow "square meter" "m2" squareMeter,
  scaleRow "square kilometer" "km2" squareKilometer, scaleRow "hectare" "ha" hectare,
  scaleRow "cubic meter" "m3" cubicMeter, scaleRow "liter" "L" liter,
  scaleRow "milliliter" "mL" milliliter, scaleRow "kilogram" "kg" kilogram,
  scaleRow "gram" "g" gram, scaleRow "milligram" "mg" milligram, scaleRow "tonne" "t" tonne,
  scaleRow "pound" "lb" pound, scaleRow "ounce" "oz" ounce, scaleRow "second" "s" second,
  scaleRow "millisecond" "ms" millisecond, scaleRow "microsecond" "us" microsecond,
  scaleRow "nanosecond" "ns" nanosecond, scaleRow "minute" "min" minute, scaleRow "hour" "h" hour,
  scaleRow "day" "d" day, scaleRow "week" "wk" week, scaleRow "year" "yr" year,
  scaleRow "kelvin" "K" kelvin, row "celsius" "degC" celsius, row "fahrenheit" "degF" fahrenheit,
  scaleRow "rankine" "degR" rankine, scaleRow "radian" "rad" radian,
  scaleRow "milliradian" "mrad" milliradian, scaleRow "degree" "deg" degree,
  scaleRow "arcminute" "arcmin" arcminute, scaleRow "arcsecond" "arcsec" arcsecond,
  scaleRow "revolution" "rev" revolution, scaleRow "meters per second" "m_per_s" metersPerSecond,
  scaleRow "kilometers per hour" "km_per_h" kilometersPerHour,
  scaleRow "miles per hour" "mph" milesPerHour, scaleRow "knot" "kn" knot,
  scaleRow "mach" "Mach" mach,
  scaleRow "meters per second squared" "m_per_s2" metersPerSecondSquared,
  scaleRow "standard gravity" "gn" standardGravity, scaleRow "newton" "N" newton,
  scaleRow "kilonewton" "kN" kilonewton, scaleRow "joule" "J" joule,
  scaleRow "kilojoule" "kJ" kilojoule, scaleRow "calorie" "cal" calorie,
  scaleRow "kilocalorie" "kcal" kilocalorie, scaleRow "watt" "W" watt,
  scaleRow "kilowatt" "kW" kilowatt, scaleRow "kilowatt hour" "kWh" kilowattHour,
  scaleRow "pascal" "Pa" pascal, scaleRow "kilopascal" "kPa" kilopascal, scaleRow "bar" "bar" bar,
  scaleRow "atmosphere" "atm" atmosphere, scaleRow "hertz" "Hz" hertz,
  scaleRow "kilohertz" "kHz" kilohertz, scaleRow "radians per second" "rad_per_s" radiansPerSecond,
  scaleRow "revolutions per minute" "rpm" revolutionsPerMinute,
  scaleRow "kilograms per cubic meter" "kg_per_m3" kilogramsPerCubicMeter]

/-- Units without a symbol of their own. -/
def multipliers : List (String × ScaleOf .dimensionless) := [
  ("one",.one), ("pico",pico), ("nano",nano), ("micro",micro), ("milli",milli), ("centi",centi),
  ("deci",deci), ("hecto",hecto), ("kilo",kilo), ("mega",mega), ("giga",giga)]

def conversionNamed? (name : String) : Option Conversion :=
  ((rows.find? (·.name == name)).map Row.conversion).or
    ((multipliers.lookup name).map fun u => .scale u.factor)

/-- What a number stands for that has the symbol of a unit as its suffix. -/
def literal? (symbol : String) (x : Float) : Option ((d : Dimension) × Quantity d 1 Float) :=
  (rows.find? (·.symbol == symbol)).map fun r => ⟨r.dimension,r.unit.of #v[x]⟩

def aliases : List (String × String) := [
  ("in","inch"), ("µm","um"), ("μm","um"), ("µs","us"), ("μs","us"), ("l","L"), ("ml","mL"),
  ("°C","degC"), ("°F","degF"), ("°R","degR"), ("°","deg"), ("kph","km_per_h"), ("kt","kn")]

def ofRows (rows : List Row) : Registry := ⟨rows.map Row.entry⟩

/-- An alias of a symbol that is not registered stands for nothing. -/
def addAlias (r : Registry) (name symbol : String) : Registry :=
  match r.lookup symbol.toList with
  | some e => r.add {e with symbol := name.toList}
  | none => r

def builtin : Registry := aliases.foldl (fun r a => r.addAlias a.1 a.2) (ofRows rows)

example : (ofRows rows).size = 70 := rfl

/-- The registry of the built-in units, with the report of its construction. -/
def start : Outcome RegistryError Registry := do
  .report (.builtinReady builtin.size)
  return builtin

end Registry
end Mensura
