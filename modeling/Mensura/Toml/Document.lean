import Mensura.Toml.Reader

/-! Values of a TOML document and how its tables grow. Where a table came from decides what may be
added to it: a table with a header of its own is closed to dotted keys and to a second header, and
an inline table to both. -/
namespace Mensura.Toml
open Reader

/-- Named on the way to another header, by a dotted key, by a header, or written in one piece. -/
inductive Origin
  | implied
  | dotted
  | header
  | inline
deriving DecidableEq

/-- Of the tables of an array the last one is still growing. -/
inductive Value
  | text (s : List Char)
  | integer (n : Int)
  | float (x : Float)
  | bool (b : Bool)
  | moment
  | list (items : List Value)
  | table (origin : Origin) (fields : List (List Char × Value))
  | tables (earlier : List Value) (last : Value)

namespace Value

def update (k : List Char) (v : Value) : List (List Char × Value) → List (List Char × Value)
  | [] => [(k,v)]
  | f::fields => if f.1 = k then (k,v)::fields else f::update k v fields

/-- Works on a table that is passed on the way. -/
def enter (dotted : Bool) (g : Value → Option Value) : Value → Option Value
  | table .inline _ => none
  | table .header fields => if dotted then none else g (table .header fields)
  | table o fields => g (table o fields)
  | tables earlier last => (g last).map (tables earlier)
  | _ => none

/-- Works on the table at the end of a path; tables that are missing on the way are made. -/
def edit (dotted : Bool) (g : Value → Option Value) : List (List Char) → Value → Option Value
  | [], v => g v
  | k::path, table o fields => do
    let new := table (if dotted then .dotted else .implied) []
    let child ← match fields.lookup k with
      | some child => enter dotted (edit dotted g path) child
      | none => edit dotted g path new
    return table o (update k child fields)
  | _::_, _ => none

/-- A new field; one with a dotted key goes into a table made by dotted keys, any other into none
such. -/
def addField (dotted : Bool) (k : List Char) (v : Value) : Value → Option Value
  | table o fields =>
    if decide (o = .dotted) = dotted ∧ fields.lookup k = none then
      some (table o (update k v fields))
    else none
  | _ => none

def assign (p : Path) (v : Value) : Value → Option Value :=
  edit true (addField (p.parents ≠ []) p.name v) p.parents

/-- A table with a header; it may have been implied by earlier headers. -/
def addTable (k : List Char) : Value → Option Value
  | table o fields =>
    match fields.lookup k with
    | none => some (table o (update k (table .header []) fields))
    | some (table .implied inner) => some (table o (update k (table .header inner) fields))
    | some _ => none
  | _ => none

def addItem (k : List Char) : Value → Option Value
  | table o fields =>
    let new := table .header []
    match fields.lookup k with
    | none => some (table o (update k (tables [] new) fields))
    | some (tables earlier last) =>
      some (table o (update k (tables (earlier ++ [last]) new) fields))
    | some _ => none
  | _ => none

end Value

def scalar : Reader Value :=
  Value.text <$> quotedText <|> (do moment; return .moment) <|> Value.float <$> float <|>
    Value.integer <$> integer <|> (do word "true".toList; return .bool true) <|>
    (do word "false".toList; return .bool false)

def items (value : Reader Value) : Reader Value := do
  char '['
  let vs ← separated (char ',') (do gap; let v ← value; gap; return v)
  discard (optional (guard (vs ≠ []) *> char ','))
  gap
  char ']'
  return .list vs

def inlineTable (value : Reader Value) : Reader Value := do
  char '{'
  blank
  let fields ← separated (char ',') (do
    let p ← path
    char '='
    blank
    let v ← value
    blank
    return (p,v))
  char '}'
  fields.foldlM (fun t f => (Value.assign f.1 f.2 t : Option Value)) (.table .inline [])

/-- A value with at most the given number of brackets around a scalar. -/
def value : Nat → Reader Value
  | 0 => scalar
  | depth+1 => items (value depth) <|> inlineTable (value depth) <|> scalar

/-! TOML documents: lines that open a table or assign a value. A line works on the table that was
opened last. -/

inductive Line
  | empty
  | table (p : Path)
  | item (p : Path)
  | assign (p : Path) (v : Value)

def Path.keys (p : Path) : List (List Char) := p.parents ++ [p.name]

/-- Brackets nest less than eighty deep. -/
def assignment : Reader Line := do
  let p ← path
  char '='
  blank
  return .assign p (← value 79)

def itemHeader : Reader Line := do
  word ['[','[']
  let p ← path
  word [']',']']
  return .item p

def tableHeader : Reader Line := do
  char '['
  let p ← path
  char ']'
  return .table p

def line : Reader Line := do
  blank
  let l ← itemHeader <|> tableHeader <|> assignment <|> pure .empty
  lineEnd
  return l

/-- The whole document, and the table that is open. -/
structure Document where
  root : Value := .table .header []
  current : List (List Char) := []

namespace Document

def addLine (d : Document) : Line → Option Document
  | .empty => some d
  | .table p => do
    let root ← d.root.edit false (Value.addTable p.name) p.parents
    return ⟨root,p.keys⟩
  | .item p => do
    let root ← d.root.edit false (Value.addItem p.name) p.parents
    return ⟨root,p.keys⟩
  | .assign p v => do
    let root ← d.root.edit false (Value.assign p v) d.current
    return {d with root := root}

def lines : Reader (List Line) := do
  discard (optional (char '\ufeff'))
  let ls ← many line
  atEnd
  return ls

def read (s : List Char) : Option Value := do
  let (ls,_) ← lines.run s
  let d ← ls.foldlM addLine {}
  return d.root

end Document
end Mensura.Toml
