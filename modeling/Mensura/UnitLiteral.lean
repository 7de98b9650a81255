import Mensura.Decimal

/-! Token trees, the numeric literals among them, and their expansion. -/
namespace Mensura.UnitLiteral

/-- The brackets around a group; a group may also have none that show. -/
inductive Delimiter
  | parenthesis
  | bracket
  | brace
  | invisible
deriving DecidableEq

inductive Token
  | literal (text : List Char)
  | identifier (name : List Char)
  | punctuation (c : Char)
  | group (delimiter : Delimiter) (tokens : List Token)

/-- Literals have no sign: a minus sign before one is a token of its own. -/
def Token.ofLiteral : List Char → List Token
  | '-' :: s => [.punctuation '-', .literal s]
  | s => [.literal s]

/-! Numeric literals: a number, in which underscores mean nothing, and a suffix. Other literals
start with a quote or a letter. -/

structure Number where
  value : Float
  suffix : List Char

def isDecimalChar (c : Char) : Bool := c.isDigit || c = '_'

def isHexChar (c : Char) : Bool :=
  isDecimalChar c || ('a' ≤ c && c ≤ 'f') || ('A' ≤ c && c ≤ 'F')

def withoutUnderscores (s : List Char) : List Char := s.filter (· ≠ '_')

/-- An integer in a base other than ten. -/
def readBased (base : Nat) (digits suffix : List Char) : Number :=
  ⟨Scalar.ofDecimal (Decimal.ofDigits base (withoutUnderscores digits)) 0,suffix⟩

def spanFraction : List Char → List Char × List Char
  | '.'::s => ('.'::s.takeWhile isDecimalChar,s.dropWhile isDecimalChar)
  | s => ([],s)

/-- An exponent has a digit; otherwise its letter starts the suffix. -/
def spanExponent : List Char → List Char × List Char
  | [] => ([],[])
  | c::s =>
    let (sign,r) := Decimal.spanSign (s.dropWhile (· = '_'))
    let digits := r.takeWhile isDecimalChar
    if (c = 'e' ∨ c = 'E') ∧ digits.any Char.isDigit then
      (c::(sign ++ digits),r.dropWhile isDecimalChar)
    else ([],c::s)

def readDecimal? (s : List Char) : Option Number :=
  let whole := s.takeWhile isDecimalChar
  let (fraction,r) := spanFraction (s.dropWhile isDecimalChar)
  let (exponent,suffix) := spanExponent r
  (Decimal.readNumber? (withoutUnderscores (whole ++ fraction ++ exponent))).map fun x => ⟨x,suffix⟩

def Number.read? : List Char → Option Number
  | '0' :: 'x' :: s => some (readBased 16 (s.takeWhile isHexChar) (s.dropWhile isHexChar))
  | '0' :: 'o' :: s => some (readBased 8 (s.takeWhile isDecimalChar) (s.dropWhile isDecimalChar))
  | '0' :: 'b' :: s => some (readBased 2 (s.takeWhile isDecimalChar) (s.dropWhile isDecimalChar))
  | c::s => if c.isDigit then readDecimal? (c::s) else none
  | [] => none

/-! Number literals with a unit as their suffix are replaced by calls of the constructor of that
unit; everything else, the nesting and the order included, stays as it is. -/

/-- The suffixes that name the type of a number. -/
def typeSuffixes : List (List Char) :=
  ["i8".toList,"i16".toList,"i32".toList,"i64".toList,"i128".toList,"isize".toList,"u8".toList,
    "u16".toList,"u32".toList,"u64".toList,"u128".toList,"usize".toList,"f32".toList,"f64".toList]

def isUnitSuffix (s : List Char) : Bool := s ≠ [] && s ∉ typeSuffixes

inductive Fault
  | tooLarge (literal : List Char)
deriving DecidableEq

def Fault.message : Fault → String
  | tooLarge literal => "\x60" ++ String.ofList literal ++ "\x60 does not fit in an f64"

def separator : List Token := [.punctuation ':',.punctuation ':']

/-- The constructor of a unit, applied to a number. -/
def constructorCall (unit : List Char) (x : Float) : List Token :=
  separator ++ [.identifier "dimsafe".toList] ++ separator ++ [.identifier "literals".toList] ++
    separator ++ [.identifier unit,.group .parenthesis [.literal (Decimal.pointText x)]]

def expandLiteral (s : List Char) : Except Fault (List Token) :=
  match Number.read? s with
  | none => .ok [.literal s]
  | some n =>
    if !isUnitSuffix n.suffix then .ok [.literal s]
    else if Scalar.isFinite n.value then .ok (constructorCall n.suffix n.value)
    else .error (.tooLarge s)

mutual

def expandToken : Token → Except Fault (List Token)
  | .literal s => expandLiteral s
  | .group d ts => do
    let us ← expand ts
    .ok [.group d us]
  | t => .ok [t]

def expand : List Token → Except Fault (List Token)
  | [] => .ok []
  | t::ts => do
    let us ← expandToken t
    let vs ← expand ts
    .ok (us ++ vs)

end

@[simp] theorem expand_nil : expand [] = .ok [] := by simp [expand]

end Mensura.UnitLiteral
