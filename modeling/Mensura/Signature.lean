import Mensura.Decimal
import Mensura.Dimension
import Mensura.Text

/-! Signatures of units, such as `kg m/s^2`: what they are read as, and what can be wrong with
them. -/
namespace Mensura.Signature

/-- A power of a unit. -/
structure Term where
  symbol : List Char
  power : Int
deriving DecidableEq

inductive Fault
  | noUnit
  | unexpectedOperator (c : Char)
  | danglingOperator (c : Char)
  | badExponent (word : List Char)
  | badSuperscript (run : List Char)
  | missingSymbol (word : List Char)
  | zeroExponent (word : List Char)
  | exponentOverflow
  | factorOutOfRange
deriving DecidableEq

def Fault.message : Fault → String
  | noUnit => "no unit"
  | unexpectedOperator c => "unexpected '" ++ c.toString ++ "'"
  | danglingOperator c => "dangling '" ++ c.toString ++ "'"
  | badExponent word => "bad exponent in " ++ Text.quote word
  | badSuperscript run => "bad exponent " ++ Text.quote run
  | missingSymbol word => "missing symbol in " ++ Text.quote word
  | zeroExponent word => "zero exponent in " ++ Text.quote word
  | exponentOverflow => "exponent overflow"
  | factorOutOfRange => "factor out of range"

/-! Reading one word of a signature as a power of a unit. The exponent follows a caret, or is a run
of superscripts, or a run of digits; a word that is itself a known symbol keeps its digits. -/

def readExponent? (s : List Char) : Option Int := (Decimal.readInt? s).bind Dimension.checked?

/-- The parts before and after the first caret. -/
def splitCaret? (w : List Char) : Option (List Char × List Char) :=
  match w.dropWhile (· ≠ '^') with
  | [] => none
  | _::p => some (w.takeWhile (· ≠ '^'),p)

theorem splitCaret?_append (s p : List Char) (h : '^' ∉ s) :
    splitCaret? (s ++ '^'::p) = some (s,p) := by
  have hs : ∀ c ∈ s, (decide (c ≠ '^')) = true := fun c hc => by
    have : c ≠ '^' := fun e => h (e ▸ hc)
    simpa using this
  simp only [splitCaret?]
  rw [List.dropWhile_append_of_pos hs,List.takeWhile_append_of_pos hs]
  simp

def withExponent (fault : Fault) (symbol exponent : List Char) : Except Fault Term :=
  match readExponent? exponent with
  | some n => .ok ⟨symbol,n⟩
  | none => .error fault

/-- A minus sign before the trailing digits belongs to them. -/
def splitTrailingPower (w : List Char) : Except Fault Term :=
  match Text.splitEnd Char.isDigit w with
  | (_,[]) => .ok ⟨w,1⟩
  | (s,digits) =>
    if s.getLast? = some '-' then withExponent (.badExponent w) s.dropLast ('-'::digits)
    else withExponent (.badExponent w) s digits

def splitPower (known : List Char → Bool) (w : List Char) : Except Fault Term :=
  match splitCaret? w with
  | some (s,p) => withExponent (.badExponent w) s p
  | none =>
    match Text.splitEnd Text.isSuperscript w with
    | (_,[]) => if known w then .ok ⟨w,1⟩ else splitTrailingPower w
    | (s,run) => withExponent (.badSuperscript run) s (run.filterMap Text.lower?)

def readTerm (known : List Char → Bool) (w : List Char) : Except Fault Term := do
  let t ← splitPower known w
  if t.symbol = [] then .error (.missingSymbol w)
  else if t.power = 0 then .error (.zeroExponent w)
  else .ok t

example :
    (readTerm (fun _ => false) "s-2".toList).toOption = some ⟨['s'],-2⟩ ∧
    (readTerm (fun _ => false) "s^-2".toList).toOption = some ⟨['s'],-2⟩ ∧
    (readTerm (fun _ => false) "s⁻²".toList).toOption = some ⟨['s'],-2⟩ := by decide

/-! Signatures as words and operators, and as products of terms. Words that stand side by side
multiply; a slash divides by the next term only. -/

inductive Piece
  | word (w : List Char)
  | operator (c : Char)
deriving DecidableEq

def isOperator (c : Char) : Bool := c = '*' || c = '·' || c = '/'

def isWordChar (c : Char) : Bool := !Text.isBlank c && !isOperator c

def startsWord : List Char → Bool
  | [] => false
  | c::_ => isWordChar c

/-- The word that the pieces start with, longer by a first character. -/
def attach (c : Char) : List Piece → List Piece
  | .word w::ps => .word (c::w)::ps
  | ps => .word [c]::ps

/-- The maximal words and the operators, in order. -/
def pieces : List Char → List Piece
  | [] => []
  | c::s =>
    if Text.isBlank c then pieces s
    else if isOperator c then .operator c::pieces s
    else if startsWord s then attach c (pieces s)
    else .word [c]::pieces s

@[simp] theorem pieces_nil : pieces [] = [] := rfl

example : pieces " km / h".toList = [.word ['k','m'],.operator '/',.word ['h']] := by decide

theorem pieces_word_append {w : List Char} (hw : w ≠ []) (h : ∀ c ∈ w, isWordChar c = true)
    {s : List Char} (hs : startsWord s = false) : pieces (w ++ s) = .word w::pieces s := by
  induction w with
  | nil => exact absurd rfl hw
  | cons c w ih =>
    have hc := h c List.mem_cons_self
    simp only [isWordChar,Bool.and_eq_true,Bool.not_eq_true'] at hc
    cases w with
    | nil => simp [pieces,hc,hs]
    | cons d w =>
      have hd : startsWord (d::w ++ s) = true := h d (by simp)
      have ht := ih (by simp) fun x hx => h x (List.mem_cons_of_mem c hx)
      rw [List.cons_append,pieces,ht,hd]
      simp [hc,attach]

/-- What the pieces to come follow. -/
inductive Place
  | start
  | afterTerm
  | afterOperator (c : Char)
deriving DecidableEq

def Term.invert (t : Term) : Except Fault Term :=
  match Dimension.checked? (-t.power) with
  | some n => .ok {t with power := n}
  | none => .error .exponentOverflow

def readTerms (known : List Char → Bool) : Place → List Piece → Except Fault (List Term)
  | .afterOperator c, [] => .error (.danglingOperator c)
  | _, [] => .ok []
  | .afterTerm, .operator c::ps => readTerms known (.afterOperator c) ps
  | _, .operator c::_ => .error (.unexpectedOperator c)
  | place, .word w::ps => do
    let t ← readTerm known w
    let t ← if place = .afterOperator '/' then t.invert else .ok t
    let ts ← readTerms known .afterTerm ps
    .ok (t::ts)

def read (known : List Char → Bool) (s : List Char) : Except Fault (List Term) :=
  match pieces s with
  | [] => .error .noUnit
  | ps => readTerms known .start ps

end Mensura.Signature
