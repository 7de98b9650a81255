import Mensura.Scalar

/-! Numbers as decimal texts: how integers and fractions are read, which decimal a binary number is
written as, and how that is laid out. A written decimal integer has no superfluous characters; a
plus sign and leading zeros are read as well. -/
namespace Mensura.Decimal

def writeInt (n : Int) : List Char :=
  if n < 0 then '-'::Nat.toDigits 10 n.natAbs else Nat.toDigits 10 n.natAbs

def readNat? (s : List Char) : Option Nat :=
  if s ≠ [] ∧ s.all Char.isDigit then some (Nat.ofDigitChars 10 s 0) else none

def readInt? : List Char → Option Int
  | '-'::s => (readNat? s).map fun (n : Nat) => -(n : Int)
  | '+'::s => (readNat? s).map Int.ofNat
  | s => (readNat? s).map Int.ofNat

theorem readNat?_toDigits (n : Nat) : readNat? (Nat.toDigits 10 n) = some n := by
  have hd : (Nat.toDigits 10 n).all Char.isDigit = true :=
    List.all_eq_true.2 fun c hc => Nat.isDigit_of_mem_toDigits (by decide) (by decide) hc
  simp only [readNat?]
  rw [if_pos ⟨Nat.toDigits_ne_nil,hd⟩,Nat.ofDigitChars_toDigits (by decide) (by decide)]

theorem readInt?_of_isDigit {c : Char} (s : List Char) (h : c.isDigit = true) :
    readInt? (c::s) = (readNat? (c::s)).map Int.ofNat := by
  unfold readInt?
  split
  · next heq => injection heq with hc; subst hc; simp at h
  · next heq => injection heq with hc; subst hc; simp at h
  · rfl

/-- The value of a digit in any base; letters follow the nine. -/
def digitValue (c : Char) : Nat :=
  if c.isDigit then c.toNat - '0'.toNat else c.toLower.toNat - 'a'.toNat + 10

def ofDigits (base : Nat) (s : List Char) : Nat := s.foldl (fun n c => base * n + digitValue c) 0

example : ofDigits 16 ['1','F'] = 31 ∧ ofDigits 2 ['1','0','1'] = 5 := by decide

/-! Numerals: decimal fractions with an optional sign and exponent, and the names of the special
values. A numeral is read as the nearest number. -/

def spanSign : List Char → List Char × List Char
  | '+'::s => (['+'],s)
  | '-'::s => (['-'],s)
  | s => ([],s)

@[simp] theorem spanSign_append (s : List Char) : (spanSign s).1 ++ (spanSign s).2 = s := by
  unfold spanSign; split <;> rfl

def spanDigits (s : List Char) : List Char × List Char :=
  (s.takeWhile Char.isDigit,s.dropWhile Char.isDigit)

@[simp] theorem spanDigits_append (s : List Char) : (spanDigits s).1 ++ (spanDigits s).2 = s :=
  List.takeWhile_append_dropWhile

/-- The digits after a decimal point, and what follows them. -/
def spanFraction : List Char → List Char × List Char
  | '.'::s => spanDigits s
  | s => ([],s)

/-- The exponent has to reach the end of the text. -/
def readExponent? : List Char → Option Int
  | [] => some 0
  | 'e'::s | 'E'::s => readInt? s
  | _ => none

/-- Significand and decimal exponent. -/
def readDecimal? (s : List Char) : Option (Nat × Int) :=
  let (whole,rest) := spanDigits s
  let (fraction,rest) := spanFraction rest
  if whole = [] ∧ fraction = [] then none
  else (readExponent? rest).map fun e =>
    (Nat.ofDigitChars 10 (whole ++ fraction) 0,e - fraction.length)

/-- The special values have names in either case of letters. -/
def readSpecial? (s : List Char) : Option Float :=
  let word := s.map Char.toLower
  if word = "inf".toList ∨ word = "infinity".toList then some Scalar.infinity
  else if word = "nan".toList then some Scalar.nan
  else none

def readMagnitude? (s : List Char) : Option Float :=
  match readDecimal? s with
  | some (m,e) => some (Scalar.ofDecimal m e)
  | none => readSpecial? s

def readNumber? : List Char → Option Float
  | '-'::s => (readMagnitude? s).map fun x => -x
  | '+'::s => readMagnitude? s
  | s => readMagnitude? s

end Mensura.Decimal

/-! The shortest decimal that reads back as a given binary number. The number and the interval of
all that rounds to it are written in a common unit, a power of ten, so that everything below is
exact arithmetic on natural numbers. -/
namespace Mensura
open Float.Model

/-- `significand * 10 ^ exponent`. -/
structure Decimal where
  significand : Nat
  exponent : Int
deriving DecidableEq

namespace Decimal

/-- Which of two equally near neighbours is taken: the upper or the even one. -/
inductive Tie
  | up
  | even
deriving DecidableEq

/-- The one that is taken of `n` and `n + 1`. -/
def Tie.choose : Tie → Nat → Nat
  | up, n => n + 1
  | even, n => n + n % 2

/-- A number with its rounding interval, in units of `10 ^ exponent`. -/
structure Target where
  low : Nat
  value : Nat
  high : Nat
  closed : Bool
  exponent : Int

namespace Target

def contains (t : Target) (n : Nat) : Bool :=
  if t.closed then t.low ≤ n && n ≤ t.high else t.low < n && n < t.high

/-- The interval around `m * 2 ^ e` reaches halfway to the two neighbours of the format. The lower
one is at half the distance where the mantissa is the least of its length. -/
def ofBinary (f : Format) (m : Nat) (e : Int) : Target :=
  let isLeast : Bool := m = Nat.pow 2 f.mantissaBitsWithoutImplicit && f.minExponent < e
  let low := if isLeast then 4 * m - 1 else 4 * m - 2
  let unit := if 2 ≤ e then Nat.pow 2 (e - 2).toNat else Nat.pow 5 (2 - e).toNat
  { low := low * unit, value := 4 * m * unit, high := (4 * m + 2) * unit, closed := m % 2 = 0,
    exponent := if 2 ≤ e then 0 else e - 2 }

/-- The nearer one of the number's neighbours among the multiples of `10 ^ k`, if they are in the
interval. -/
def onGrid? (t : Target) (tie : Tie) (k : Nat) : Option Nat :=
  let step := Nat.pow 10 k
  let below := t.value / step
  match t.contains (below * step), t.contains ((below + 1) * step) with
  | true, true =>
    if 2 * (t.value % step) < step then some below
    else if 2 * (t.value % step) = step then some (tie.choose below)
    else some (below + 1)
  | true, false => some below
  | false, true => some (below + 1)
  | false, false => none

def search (t : Target) (tie : Tie) : Nat → Decimal
  | 0 => ⟨t.value,t.exponent⟩
  | k+1 =>
    match t.onGrid? tie (k+1) with
    | some n => ⟨n,t.exponent + (k+1 : Nat)⟩
    | none => t.search tie k

end Target

/-- The coarsest grid with a hit decides, so no shorter decimal reads back. -/
def shortest (f : Format) (tie : Tie) (m : Nat) (e : Int) : Decimal :=
  let t := Target.ofBinary f m e
  t.search tie (Nat.toDigits 10 t.high).length

/-! Texts of binary numbers. The plain text never has an exponent and shows no decimals of a whole
number; the detailed one has a decimal point or an exponent; the fixed one has a given number of
decimals of the exact value. -/

variable {α : Type} [Scalar α]

/-- The digits with the point moved by the exponent. -/
def positional (ds : List Char) (e : Int) : List Char :=
  let k := (-e).toNat
  if 0 ≤ e then ds ++ List.replicate e.toNat '0'
  else if k < ds.length then ds.take (ds.length - k) ++ '.'::ds.drop (ds.length - k)
  else '0' :: '.' :: (List.replicate (k - ds.length) '0' ++ ds)

def digits (d : Decimal) : List Char := Nat.toDigits 10 d.significand

def plain (d : Decimal) : List Char := positional d.digits d.exponent

/-- The exponent of the leading digit. -/
def magnitude (d : Decimal) : Int := d.digits.length - 1 + d.exponent

def withDecimal (s : List Char) : List Char := if '.' ∈ s then s else s ++ ['.','0']

/-- How detailed texts are written: the least power of ten without an exponent, whether positive
exponents have a sign, and which of two equally near decimals is taken. -/
structure DetailStyle where
  least : Int := -4
  plus : Bool := false
  tie : Tie := .up

/-- One digit before the point. -/
def exponential (plus : Bool) (d : Decimal) : List Char :=
  let fraction := match d.digits.tail with
    | [] => []
    | r => '.'::r
  let sign := if plus && 0 < d.magnitude then ['+'] else []
  d.digits.take 1 ++ fraction ++ 'e'::(sign ++ writeInt d.magnitude)

/-- Numbers below `1e16` are written without an exponent, unless they are too small. -/
def detailed (st : DetailStyle) (d : Decimal) : List Char :=
  if st.least ≤ d.magnitude ∧ d.magnitude < 16 then withDecimal d.plain else d.exponential st.plus

/-- The quotient rounded to the nearest whole number, a half to the even one. -/
def divRound (n d : Nat) : Nat :=
  let q := n / d
  if 2 * (n % d) < d then q else if 2 * (n % d) = d then q + q % 2 else q + 1

example : divRound 5 2 = 2 ∧ divRound 7 2 = 4 ∧ divRound 8 3 = 3 := by decide

/-- Exactly `places` decimals of `m * 2 ^ e`. -/
def fixed (places m : Nat) (e : Int) : List Char :=
  let n := m * Nat.pow 10 places
  let units := if 0 ≤ e then n * Nat.pow 2 e.toNat else divRound n (Nat.pow 2 (-e).toNat)
  let ds := Nat.toDigits 10 units
  positional (List.replicate (places + 1 - ds.length) '0' ++ ds) (-(places : Int))

/-- The text of a number without its sign. -/
def magnitudeText (zero : List Char) (finite : Nat → Int → List Char) (x : α) : List Char :=
  match Scalar.unpack x with
  | .infinity _ => "inf".toList
  | .notANumber => "NaN".toList
  | .zero _ => zero
  | .finite _ m e _ => finite m e

def signText (x : α) : List Char := if Scalar.isNegative x then ['-'] else []

def plainText (x : α) : List Char :=
  signText x ++ magnitudeText ['0'] (fun m e => (shortest (Scalar.format α) .up m e).plain) x

def detailedTextIn (st : DetailStyle) (x : α) : List Char :=
  let finite (m : Nat) (e : Int) := (shortest (Scalar.format α) st.tie m e).detailed st
  signText x ++ magnitudeText ['0','.','0'] finite x

def detailedText (x : α) : List Char := detailedTextIn {} x

/-- The plain text with a decimal point, if it is finite. -/
def pointText (x : α) : List Char :=
  if Scalar.isFinite x then withDecimal (plainText x) else plainText x

inductive Alignment
  | left
  | center
  | right

/-- How a number is fitted into a column. Filling with zeros goes between the sign and the digits
and takes the place of the alignment. -/
structure Style where
  width : Nat := 0
  places : Option Nat := none
  align : Alignment := .right
  fill : Char := ' '
  plus : Bool := false
  zeros : Bool := false

/-- Of an odd number of fill characters around a centred text one more is on the right. -/
def pad (align : Alignment) (fill : Char) (width : Nat) (s : List Char) : List Char :=
  let n := width - s.length
  match align with
  | .left => s ++ List.replicate n fill
  | .right => List.replicate n fill ++ s
  | .center => List.replicate (n / 2) fill ++ s ++ List.replicate (n - n / 2) fill

def styled (st : Style) (x : α) : List Char :=
  let sign :=
    if Scalar.isNegative x then ['-'] else if st.plus && !Scalar.isNaN x then ['+'] else []
  let body := match st.places with
    | some p => magnitudeText (fixed p 0 0) (fixed p) x
    | none => magnitudeText ['0'] (fun m e => (shortest (Scalar.format α) .up m e).plain) x
  if st.zeros then sign ++ pad .right '0' (st.width - sign.length) body
  else pad st.align st.fill st.width (sign ++ body)

end Decimal
end Mensura
