import Mensura.Registry.Basic
import Mensura.Toml.Document

/-! Entries of unit catalogs. A unit is given either by a definition or by a factor; only with a
factor may it have an offset and a dimension. -/
namespace Mensura

structure CatalogEntry where
  symbol : List Char
  definition : Option (List Char)
  factor : Option Float
  offset : Option Float
  dimension : Option Dimension
deriving DecidableEq

namespace CatalogEntry

def apply (r : Registry) (e : CatalogEntry) : Outcome RegistryError Registry :=
  match e.definition,e.factor with
  | some definition,none =>
    if e.offset.isSome || e.dimension.isSome then .fail (.invalidEntry e.symbol .superfluousField)
    else r.define e.symbol definition
  | none,some factor =>
    let conversion := match e.offset with
      | some offset => .affine offset factor
      | none => .scale factor
    r.insert ⟨e.symbol,e.dimension.getD .dimensionless,conversion⟩
  | some _,some _ => .fail (.invalidEntry e.symbol .definitionAndFactor)
  | none,none => .fail (.invalidEntry e.symbol .noDefinitionOrFactor)

open Toml (Value)

def readText : Value → Option (List Char)
  | .text s => some s
  | _ => none

def readNumber : Value → Option Float
  | .integer n => some (Scalar.ofInt n)
  | .float x => some x
  | _ => none

def readExponent : Value → Option Int
  | .integer n => Dimension.checked? n
  | _ => none

/-- Five exponents; whatever comes after them is ignored. -/
def readDimension : Value → Option Dimension
  | .list (l::m::t::θ::a::_) => do
    return ⟨← readExponent l,← readExponent m,← readExponent t,← readExponent θ,← readExponent a⟩
  | _ => none

/-- A field that may be missing, but has to be readable if it is there. -/
def readOptional {β : Type} (read : Value → Option β) : Option Value → Option (Option β)
  | none => some none
  | some v => (read v).map some

def keys : List (List Char) :=
  ["symbol".toList,"definition".toList,"factor".toList,"offset".toList,"dimension".toList]

def ofFields (fields : List (List Char × Value)) : Option CatalogEntry := do
  let get (k : String) := fields.lookup k.toList
  return {
    symbol := ← (get "symbol").bind readText
    definition := ← readOptional readText (get "definition")
    factor := ← readOptional readNumber (get "factor")
    offset := ← readOptional readNumber (get "offset")
    dimension := ← readOptional readDimension (get "dimension") }

/-- A table with no other keys, or the values of the keys in their order. -/
def ofValue : Value → Option CatalogEntry
  | .table _ fields => if fields.all fun f => keys.contains f.1 then ofFields fields else none
  | .list vs => ofFields (keys.zip vs)
  | _ => none

end CatalogEntry

/-! Unit catalogs. The whole catalog is read before anything else; then its entries are applied one
after the other, and either all of them are registered or none. -/

namespace Catalog

/-- The entries under the key `unit`; other keys are ignored. -/
def ofDocument : Toml.Value → Option (List CatalogEntry)
  | .table _ fields =>
    match fields.lookup "unit".toList with
    | none => some []
    | some (.list vs) => vs.mapM CatalogEntry.ofValue
    | some (.tables earlier last) => (earlier ++ [last]).mapM CatalogEntry.ofValue
    | some _ => none
  | _ => none

def read (text : List Char) : Option (List CatalogEntry) :=
  (Toml.Document.read text).bind ofDocument

end Catalog

namespace Registry

def applyAll (r : Registry) (es : List CatalogEntry) : Outcome RegistryError Registry :=
  es.foldlM (fun r e => (e.apply r).reportError (.rejected e.symbol)) r

theorem applyAll_cons (r : Registry) (e : CatalogEntry) (es : List CatalogEntry) :
    r.applyAll (e::es) =
      (e.apply r).reportError (.rejected e.symbol) >>= fun r => r.applyAll es := rfl

/-- The registry with all units of the catalog, and how many these are. -/
def load (r : Registry) (text : List Char) : Outcome RegistryError (Registry × Nat) :=
  match Catalog.read text with
  | none => .fail .malformedCatalog
  | some es => do
    let r ← r.applyAll es
    .report (.loaded es.length)
    return (r,es.length)

/-- A catalog from a file, which may be missing. -/
def loadFile (r : Registry) (path : String) (content : Option ByteArray) :
    Outcome RegistryError (Registry × Nat) :=
  match content with
  | none => .fail (.unreadable path .missing)
  | some bytes =>
    match String.fromUTF8? bytes with
    | none => .fail (.unreadable path .notText)
    | some text => do
      .report (.reading path)
      r.load text.toList

/-- The built-in units and those of a catalog. -/
def ofCatalog (text : List Char) : Outcome RegistryError Registry := do
  let r ← start
  let (r,_) ← r.load text
  return r

def ofFile (path : String) (content : Option ByteArray) : Outcome RegistryError Registry := do
  let r ← start
  let (r,_) ← r.loadFile path content
  return r

end Registry

/-! Changes of a registry, one after the other. A change that fails leaves the registry as it
was. -/

inductive Change
  | insert (e : Entry)
  | define (symbol definition : List Char)
  | load (text : List Char)

namespace Change

/-- The changed registry and the number of units that are new. -/
def apply (r : Registry) : Change → Outcome RegistryError (Registry × Nat)
  | insert e => do
    let r ← r.insert e
    return (r,1)
  | define symbol definition => do
    let r ← r.define symbol definition
    return (r,1)
  | load text => r.load text

def after (r : Registry) (c : Change) : Registry :=
  match (c.apply r).result with
  | .ok (s,_) => s
  | .error _ => r

theorem after_of_error {r : Registry} {c : Change} {e : RegistryError}
    (h : (c.apply r).result = .error e) : c.after r = r := by
  simp [after,h]

def run (r : Registry) (cs : List Change) : Registry := cs.foldl after r

end Change
end Mensura
