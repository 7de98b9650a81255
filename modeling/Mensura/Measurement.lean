import Mensura.Decimal
import Mensura.Dimension
import Mensura.Signature
import Mensura.Text

/-! Texts of a number and a unit signature, and why such a text is not read as a quantity. The
number is the longest decimal start of the text, or, if it starts with none, its first word. -/
namespace Mensura

inductive ReadError
  | empty
  | invalidNumber (text : List Char)
  | unknownUnit (symbol : List Char)
  | malformedSignature (signature : List Char) (fault : Signature.Fault)
  | dimensionMismatch (expected found : Dimension)
  | affineInCompound (symbol : List Char)
deriving DecidableEq

def ReadError.message : ReadError → String
  | empty => "empty input"
  | invalidNumber text => "invalid number: " ++ Text.quote text
  | unknownUnit symbol => "unknown unit: " ++ Text.quote symbol
  | malformedSignature signature fault =>
    "malformed unit signature " ++ Text.quote signature ++ ": " ++ fault.message
  | dimensionMismatch expected found =>
    "dimension mismatch: expected " ++ String.ofList expected.text ++ ", found " ++
      String.ofList found.text
  | affineInCompound symbol =>
    "unit " ++ Text.quote symbol ++ " has an offset and cannot appear in a compound signature"

namespace Measurement
open Decimal (spanSign spanSign_append)

def isNumeralChar (c : Char) : Bool := c.isDigit || c = '_'

/-- A decimal point and the digits after it. -/
def spanPoint : List Char → List Char × List Char
  | '.'::s => ('.'::s.takeWhile isNumeralChar,s.dropWhile isNumeralChar)
  | s => ([],s)

/-- A letter without digits after it is no exponent but the start of a unit. -/
def spanExponent : List Char → List Char × List Char
  | [] => ([],[])
  | c::s =>
    let (sign,r) := spanSign s
    if (c = 'e' ∨ c = 'E') ∧ r.takeWhile Char.isDigit ≠ [] then
      (c::(sign ++ r.takeWhile Char.isDigit),r.dropWhile Char.isDigit)
    else ([],c::s)

@[simp] theorem spanPoint_append (s : List Char) : (spanPoint s).1 ++ (spanPoint s).2 = s := by
  unfold spanPoint; split <;> simp

@[simp] theorem spanExponent_append (s : List Char) :
    (spanExponent s).1 ++ (spanExponent s).2 = s := by
  cases s with
  | nil => rfl
  | cons c s =>
    simp only [spanExponent]
    split
    · simp only [List.cons_append,List.append_assoc,List.takeWhile_append_dropWhile,
        spanSign_append]
    · rfl

/-- The longest decimal start, empty if no digit comes before the exponent; and the rest. -/
def spanDecimal (s : List Char) : List Char × List Char :=
  let (sign,r) := spanSign s
  let whole := r.takeWhile isNumeralChar
  let (point,r) := spanPoint (r.dropWhile isNumeralChar)
  if (whole ++ point).any Char.isDigit then
    let (exponent,r) := spanExponent r
    (sign ++ whole ++ point ++ exponent,r)
  else ([],s)

@[simp] theorem spanDecimal_append (s : List Char) :
    (spanDecimal s).1 ++ (spanDecimal s).2 = s := by
  simp only [spanDecimal]
  split
  · simp only [List.append_assoc,spanExponent_append,spanPoint_append,
      List.takeWhile_append_dropWhile,spanSign_append]
  · rfl

def spanWord (s : List Char) : List Char × List Char :=
  (s.takeWhile (!Text.isBlank ·),s.dropWhile (!Text.isBlank ·))

def spanNumber (s : List Char) : List Char × List Char :=
  match spanDecimal s with
  | ([],_) => spanWord s
  | p => p

/-- Underscores may group the digits. -/
def readGrouped? (s : List Char) : Option Float := Decimal.readNumber? (s.filter (· ≠ '_'))

/-- The number and the trimmed signature. -/
def split (text : List Char) : Except ReadError (Float × List Char) :=
  let t := Text.trim text
  if t = [] then .error .empty
  else
    let (number,rest) := spanNumber t
    match readGrouped? number with
    | some x => .ok (x,Text.trim rest)
    | none => .error (.invalidNumber number)

end Measurement
end Mensura
