import Mensura.Decimal
import Mensura.Dimension
import Mensura.Quantity
import Mensura.Text

/-! Structured data: numbers, texts, lists and records, and what can be wrong with data that is
read as something. The fields of a record are in the order in which they are visited. -/
namespace Mensura

inductive Data
  | null
  | bool (b : Bool)
  | integer (n : Int)
  | float (x : Float)
  | text (s : String)
  | list (items : List Data)
  | record (fields : List (String × Data))

namespace Data

def field? : Data → String → Option Data
  | record fields, k => fields.lookup k
  | _, _ => none

/-- Messages show numbers from `1e-5` up to `1e16` without an exponent. -/
def numberStyle : Decimal.DetailStyle := {least := -5, plus := true, tie := .even}

/-- How messages name the data. -/
def describe : Data → String
  | null => "null"
  | bool b => "boolean \x60" ++ toString b ++ "\x60"
  | integer n => "integer \x60" ++ toString n ++ "\x60"
  | float x =>
    "floating point \x60" ++ String.ofList (Decimal.detailedTextIn numberStyle x) ++ "\x60"
  | text s => "string " ++ Text.quote s.toList
  | list _ => "sequence"
  | record _ => "map"

/-- What data is read as. -/
inductive Shape
  | number (bits : Nat)
  | exponent
  | vector (axes : Nat)
  | dimension
  | taggedQuantity
  | conversion
  | parameters
deriving DecidableEq

def Shape.name : Shape → String
  | number bits => "f" ++ toString bits
  | exponent => "i32"
  | vector axes => "struct Vector" ++ toString axes
  | dimension => "an array of length 5"
  | taggedQuantity => "struct Quantity with value and dimension fields"
  | conversion => "string or map"
  | parameters => "struct variant"

/-- The name where the number of items counts. -/
def Shape.sizedName : Shape → String
  | vector axes => "struct Vector" ++ toString axes ++ " with " ++ toString axes ++ " elements"
  | s => s.name

inductive Fault
  | wrongType (found : Data) (expected : Shape)
  | outOfRange (n : Int)
  | tooShort (count : Nat) (expected : Shape)
  | tooLong (count : Nat)
  | missingField (name : String)
  | duplicateField (name : String)
  | unknownField (name : String) (expected : List String)
  | notSingleField
  | unknownVariant (name : String) (expected : List String)
  | bareVariant
  | dimensionMismatch (expected found : Dimension)

def anyOf (names : List String) : String :=
  " or ".intercalate (names.map fun s => "\x60" ++ s ++ "\x60")

def Fault.message : Fault → String
  | wrongType found expected =>
    "invalid type: " ++ found.describe ++ ", expected " ++ expected.name
  | outOfRange n =>
    "invalid value: " ++ (integer n).describe ++ ", expected " ++ Shape.exponent.name
  | tooShort count expected =>
    "invalid length " ++ toString count ++ ", expected " ++ expected.sizedName
  | tooLong count => "invalid length " ++ toString count ++ ", expected fewer elements in array"
  | missingField name => "missing field " ++ anyOf [name]
  | duplicateField name => "duplicate field " ++ anyOf [name]
  | unknownField name expected =>
    "unknown field " ++ anyOf [name] ++ ", expected " ++ anyOf expected
  | notSingleField => "invalid value: map, expected map with a single key"
  | unknownVariant name expected =>
    "unknown variant " ++ anyOf [name] ++ ", expected " ++ anyOf expected
  | bareVariant => "invalid type: unit variant, expected " ++ Shape.parameters.name
  | dimensionMismatch expected found =>
    "dimension mismatch: expected " ++ String.ofList expected.text ++ ", found " ++
      String.ofList found.text

/-! Reading quantities, dimensions and conversions from structured data. The first problem met is
reported: fields are visited in their order, what is missing is noticed at the end, and a dimension
that does not match last of all. -/

variable {α : Type} [Scalar α]

def readNumber : Data → Except Fault α
  | integer n => .ok (Scalar.ofInt n)
  | float x => .ok (Scalar.ofFloat x)
  | d => .error (.wrongType d (.number (Scalar.format α).numBits))

def readExponent : Data → Except Fault Int
  | integer n =>
    match Dimension.checked? n with
    | some n => .ok n
    | none => .error (.outOfRange n)
  | d => .error (.wrongType d .exponent)

/-- Exactly `n` items; that there are more is noticed last. -/
def readItems {β : Type} (n : Nat) (shape : Shape) (item : Data → Except Fault β)
    (items : List Data) : Except Fault (Vector β n) := do
  let v ← Vector.ofFnM fun i : Fin n =>
    match items[i.val]? with
    | some x => item x
    | none => .error (.tooShort items.length shape)
  if n < items.length then .error (.tooLong items.length) else .ok v

/-- The numbers in the fields with the given names; other fields are ignored. -/
def gather (names : List String) :
    List (String × Data) → List (String × α) → Except Fault (List (String × α))
  | [], seen => .ok seen
  | (k,x)::fields, seen =>
    if k ∉ names then gather names fields seen
    else if (seen.lookup k).isSome then .error (.duplicateField k)
    else do
      let x ← readNumber x
      gather names fields ((k,x)::seen)

def require (values : List (String × α)) (name : String) : Except Fault α :=
  match values.lookup name with
  | some x => .ok x
  | none => .error (.missingField name)

/-- One component is a bare number; more are a list or a record. -/
def readComponents (n : Nat) (d : Data) : Except Fault (Vector α n) :=
  if n = 1 then (readNumber d).map fun x => .replicate n x
  else match d with
  | list items => readItems n (.vector n) readNumber items
  | record fields => do
    let values ← gather (Components.axisNames.take n) fields []
    Vector.ofFnM fun i => require values (Components.axisName i.val)
  | d => .error (.wrongType d (.vector n))

def readDimension : Data → Except Fault Dimension
  | list items => do
    let v ← readItems 5 .dimension readExponent items
    .ok ⟨v[0],v[1],v[2],v[3],v[4]⟩
  | d => .error (.wrongType d .dimension)

/-- A quantity without its dimension. -/
def readPlain (d : Dimension) (n : Nat) (x : Data) : Except Fault (Quantity d n α) :=
  (readComponents n x).map Quantity.mk

section Tagged
variable {β : Type} (read : Data → Except Fault β)

/-- The fields `value` and `dimension`, each at most once. -/
def visitTagged : List (String × Data) → Option β → Option Dimension →
    Except Fault (Option β × Option Dimension)
  | [], value, tag => .ok (value,tag)
  | (k,x)::pairs, value, tag =>
    if k = "value" then
      if value.isSome then .error (.duplicateField k)
      else do
        let v ← read x
        visitTagged pairs (some v) tag
    else if k = "dimension" then
      if tag.isSome then .error (.duplicateField k)
      else do
        let t ← readDimension x
        visitTagged pairs value (some t)
    else .error (.unknownField k ["value","dimension"])

/-- A value with its dimension, from pairs in the order in which they are visited. -/
def readPairs (d : Dimension) (pairs : List (String × Data)) : Except Fault β := do
  let (value,tag) ← visitTagged read pairs none none
  match value with
  | none => .error (.missingField "value")
  | some v =>
    match tag with
    | none => .ok v
    | some t => if t = d then .ok v else .error (.dimensionMismatch d t)

end Tagged

def readTagged (d : Dimension) (n : Nat) : Data → Except Fault (Quantity d n α)
  | record fields => (readPairs (readComponents n) d fields).map Quantity.mk
  | x => .error (.wrongType x .taggedQuantity)

def readScale (fields : List (String × Data)) : Except Fault Conversion := do
  let values ← gather ["factor"] fields []
  let factor ← require values "factor"
  .ok (.scale factor)

def readAffine (fields : List (String × Data)) : Except Fault Conversion := do
  let values ← gather ["offset","factor"] fields []
  let offset ← require values "offset"
  let factor ← require values "factor"
  .ok (.affine offset factor)

def variants : List (String × (List (String × Data) → Except Fault Conversion)) :=
  [("Scale",readScale),("Affine",readAffine)]

def readVariant (name : String) (content : Option Data) : Except Fault Conversion :=
  match variants.lookup name,content with
  | none,_ => .error (.unknownVariant name (variants.map Prod.fst))
  | some _,none => .error .bareVariant
  | some read,some (record fields) => read fields
  | some _,some x => .error (.wrongType x .parameters)

def readConversion : Data → Except Fault Conversion
  | text s => readVariant s none
  | record [(k,x)] => readVariant k (some x)
  | record _ => .error .notSingleField
  | x => .error (.wrongType x .conversion)

/-! Writing quantities, dimensions and conversions as structured data. Data has no infinite and no
undefined numbers; they are written as null. -/

variable {d : Dimension} {n : Nat}

def ofNumber (x : α) : Data := if Scalar.isFinite x then .float (Scalar.toFloat x) else .null

def ofComponents (v : Vector α n) : Data :=
  if h : n = 1 then ofNumber v[0]
  else .record (List.ofFn fun i : Fin n => (Components.axisName i.val,ofNumber (v.get i)))

def ofDimension (d : Dimension) : Data := .list (d.exponents.map .integer)

def ofPlain (q : Quantity d n α) : Data := ofComponents q.value

def ofTagged (q : Quantity d n α) : Data :=
  .record [("value",ofComponents q.value),("dimension",ofDimension d)]

def ofConversion (c : Conversion) : Data :=
  .record [(c.caption,.record (c.parameters.map fun p => (p.1,ofNumber p.2)))]

end Data
end Mensura
