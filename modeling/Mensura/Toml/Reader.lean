import Mensura.Decimal

/-! Readers of text: each takes a start off the text or fails without having read anything. -/
namespace Mensura.Toml

abbrev Reader (α : Type) := StateT (List Char) Option α

namespace Reader
variable {α : Type}

def next (p : Char → Bool) : Reader Char
  | c::s => if p c then some (c,s) else none
  | [] => none

def char (c : Char) : Reader Unit := discard (next (· == c))

def span (p : Char → Bool) : Reader (List Char) := fun s => some (s.takeWhile p,s.dropWhile p)

def span1 (p : Char → Bool) : Reader (List Char) := do
  let s ← span p
  guard (s ≠ [])
  return s

def word : List Char → Reader Unit
  | [] => pure ()
  | c::w => do char c; word w

def exactly (n : Nat) (p : Char → Bool) : Reader (List Char) := fun s =>
  if (s.take n).length = n ∧ (s.take n).all p then some (s.take n,s.drop n) else none

def atEnd : Reader Unit
  | [] => some ((),[])
  | _ => none

/-- As often as the reader succeeds and takes something. -/
def repeatFrom (r : Reader α) (s : List Char) : List α × List Char :=
  match r.run s with
  | some (a,t) =>
    if t.length < s.length then
      let (as,u) := repeatFrom r t
      (a::as,u)
    else ([],s)
  | none => ([],s)
termination_by s.length

def many (r : Reader α) : Reader (List α) := fun s => some (repeatFrom r s)

def separated (separator : Reader Unit) (r : Reader α) : Reader (List α) :=
  (do
    let a ← r
    let as ← many (do separator; r)
    return a::as) <|> pure []

end Reader

/-! Blanks, comments, keys and the four kinds of quoted text of a TOML document. -/

open Reader

/-- What may stand in a comment: no control character but the tab. -/
def isPrintable (c : Char) : Bool := c = '\t' || (' ' ≤ c && c ≠ '\x7f')

def blank : Reader Unit := discard (span fun c => c = ' ' || c = '\t')

def newline : Reader Unit := char '\n' <|> word ['\r','\n']

def comment : Reader Unit := do
  char '#'
  discard (span isPrintable)

/-- What may follow a statement on its line. -/
def lineEnd : Reader Unit := do
  blank
  discard (optional comment)
  newline <|> atEnd

/-- Blanks, line ends and comments between the items of a list. -/
def gap : Reader Unit :=
  discard (many (discard (span1 fun c => c = ' ' || c = '\t') <|> newline <|> do comment; newline))

def isHexDigit (c : Char) : Bool := c.isDigit || ('a' ≤ c && c ≤ 'f') || ('A' ≤ c && c ≤ 'F')

def codePoint (digits : Nat) : Reader Char := do
  let n := Decimal.ofDigits 16 (← exactly digits isHexDigit)
  guard n.isValidChar
  return Char.ofNat n

/-- The character that an escape stands for, after the backslash. -/
def escaped : Reader Char := do
  match ← next fun _ => true with
  | 'b' => return '\x08'
  | 't' => return '\t'
  | 'n' => return '\n'
  | 'f' => return '\x0c'
  | 'r' => return '\r'
  | '"' => return '"'
  | '\\' => return '\\'
  | 'u' => codePoint 4
  | 'U' => codePoint 8
  | _ => failure

def escape : Reader (List Char) := do
  char '\\'
  return [← escaped]

/-- A backslash at the end of a line takes the white space after it away. -/
def continuation : Reader (List Char) := do
  char '\\'
  blank
  newline
  discard (many (discard (next fun c => c = ' ' || c = '\t') <|> newline))
  return []

def basicText : Reader (List Char) := do
  char '"'
  let parts ← many (escape <|> span1 fun c => isPrintable c && c ≠ '"' && c ≠ '\\')
  char '"'
  return parts.flatten

def literalText : Reader (List Char) := do
  char '\''
  let s ← span fun c => isPrintable c && c ≠ '\''
  char '\''
  return s

/-- One or two quotes do not end a text between triple quotes. -/
def innerQuotes (q : Char) : Reader (List Char) := do
  let qs ← span1 (· == q)
  guard (qs.length < 3)
  return qs

/-- The quotes before the closing three belong to the text; there are at most two. -/
def closingQuotes (q : Char) : Reader (List Char) := do
  let qs ← span1 (· == q)
  guard (3 ≤ qs.length ∧ qs.length ≤ 5)
  return qs.drop 3

def lines (q : Char) (part : Reader (List Char)) : Reader (List Char) := do
  word [q,q,q]
  discard (optional newline)
  let parts ← many (part <|> (do newline; return ['\n']) <|> innerQuotes q)
  let last ← closingQuotes q
  return parts.flatten ++ last

def basicLines : Reader (List Char) :=
  lines '"' (continuation <|> escape <|> span1 fun c => isPrintable c && c ≠ '"' && c ≠ '\\')

def literalLines : Reader (List Char) := lines '\'' (span1 fun c => isPrintable c && c ≠ '\'')

def quotedText : Reader (List Char) := basicLines <|> literalLines <|> basicText <|> literalText

def isBareKeyChar (c : Char) : Bool := c.isAlphanum || c = '_' || c = '-'

def simpleKey : Reader (List Char) := span1 isBareKeyChar <|> basicText <|> literalText

/-- A dotted key: the keys of the tables that lead to a field, and its own. -/
structure Path where
  parents : List (List Char)
  name : List Char

/-- A path has fewer than eighty keys. -/
def path : Reader Path := do
  let keys ← separated (char '.') (do blank; let k ← simpleKey; blank; return k)
  guard (keys.length < 80)
  match keys.getLast? with
  | some name => return ⟨keys.dropLast,name⟩
  | none => failure

/-! Integers, floats, dates and times of a TOML document. -/

/-- Digits with single underscores between them; without the underscores. -/
def groupedDigits (p : Char → Bool) : Reader (List Char) := do
  let d ← next p
  let ds ← many (do discard (optional (char '_')); next p)
  return d::ds

def sign : Reader (List Char) := (do return [← next fun c => c = '+' || c = '-']) <|> pure []

/-- A decimal integer starts with a zero only if it is zero. -/
def wholeDigits : Reader (List Char) := do
  let ds ← groupedDigits Char.isDigit
  guard (ds.length = 1 ∨ ds.head? ≠ some '0')
  return ds

def is64Bit (n : Int) : Bool := -0x8000000000000000 ≤ n && n < 0x8000000000000000

def bounded (n : Int) : Reader Int := do
  guard (is64Bit n)
  return n

def decimalInteger : Reader Int := do
  let s ← sign
  let ds ← wholeDigits
  let n := Nat.ofDigitChars 10 ds 0
  bounded (if s = ['-'] then -(n : Int) else n)

/-- A letter after a leading zero gives the base; such integers have no sign. -/
def basedInteger (letter : Char) (base : Nat) : Reader Int := do
  word ['0',letter]
  let ds ← groupedDigits fun c => c.isAlphanum && Decimal.digitValue c < base
  bounded (Decimal.ofDigits base ds)

def integer : Reader Int :=
  basedInteger 'x' 16 <|> basedInteger 'o' 8 <|> basedInteger 'b' 2 <|> decimalInteger

def fraction : Reader (List Char) := do
  char '.'
  return '.'::(← groupedDigits Char.isDigit)

def exponent : Reader (List Char) := do
  discard (next fun c => c = 'e' || c = 'E')
  let s ← sign
  return 'e'::(s ++ (← groupedDigits Char.isDigit))

/-- A number too large is refused, but one too small is minus infinity. -/
def decimalFloat : Reader Float := do
  let s ← sign
  let whole ← wholeDigits
  let f ← fraction <|> pure []
  let e ← exponent <|> pure []
  guard (f ≠ [] ∨ e ≠ [])
  match Decimal.readNumber? (s ++ whole ++ f ++ e) with
  | some x =>
    guard (Scalar.isFinite x ∨ Scalar.isNegative x)
    return x
  | none => failure

def specialFloat : Reader Float := do
  let s ← sign
  let x : Float ← (do word "inf".toList; return Scalar.infinity) <|>
    (do word "nan".toList; return Scalar.nan)
  return if s = ['-'] then -x else x

def float : Reader Float := decimalFloat <|> specialFloat

def field (digits low high : Nat) : Reader Nat := do
  let n := Nat.ofDigitChars 10 (← exactly digits Char.isDigit) 0
  guard (low ≤ n ∧ n ≤ high)
  return n

def isLeapYear (y : Nat) : Bool := y % 4 = 0 && (y % 100 ≠ 0 || y % 400 = 0)

def daysIn (year month : Nat) : Nat :=
  if month = 2 then if isLeapYear year then 29 else 28
  else if month ∈ [4,6,9,11] then 30
  else 31

example : daysIn 2000 2 = 29 ∧ daysIn 1900 2 = 28 := by decide

def date : Reader Unit := do
  let y ← field 4 0 9999
  char '-'
  let m ← field 2 1 12
  char '-'
  discard (field 2 1 (daysIn y m))

def time : Reader Unit := do
  discard (field 2 0 23)
  char ':'
  discard (field 2 0 59)
  char ':'
  discard (field 2 0 60)
  discard (optional do char '.'; span1 Char.isDigit)

def zone : Reader Unit :=
  discard (next fun c => c = 'Z' || c = 'z') <|> do
    discard (next fun c => c = '+' || c = '-')
    discard (field 2 0 23)
    char ':'
    discard (field 2 0 59)

/-- A date, a time, or both with a time zone. -/
def moment : Reader Unit :=
  (do
    date
    discard (optional do
      discard (next fun c => c = 'T' || c = 't' || c = ' ')
      time
      optional zone)) <|> time

end Mensura.Toml
