import Mensura.Measurement
import Mensura.Text
import Mensura.Unit

/-! Entries of a unit registry, what makes one unfit, and what an operation on a registry answers:
a result, and the events reported on the way. -/
namespace Mensura

structure Entry where
  symbol : List Char
  dimension : Dimension
  conversion : Conversion

inductive EntryFault
  | emptySymbol
  | numericStart
  | separatorInSymbol
  | badFactor
  | badOffset
  | offsetInDefinition
  | superfluousField
  | definitionAndFactor
  | noDefinitionOrFactor
deriving DecidableEq

def EntryFault.message : EntryFault → String
  | emptySymbol => "symbol is empty"
  | numericStart => "symbol cannot start like a number"
  | separatorInSymbol => "symbol cannot contain whitespace or operators"
  | badFactor => "factor must be finite and non-zero"
  | badOffset => "offset must be finite"
  | offsetInDefinition => "a definition cannot use an offset unit"
  | superfluousField => "\x60definition\x60 excludes \x60offset\x60 and \x60dimension\x60"
  | definitionAndFactor => "give either \x60definition\x60 or \x60factor\x60, not both"
  | noDefinitionOrFactor => "missing \x60definition\x60 or \x60factor\x60"

def isNumericStart (c : Char) : Bool := c.isDigit || c = '+' || c = '-' || c = '.'

def isSeparator (c : Char) : Bool := Text.isBlank c || c = '*' || c = '·' || c = '/' || c = '^'

/-- A factor that can be divided by. -/
def isUsable (factor : Float) : Bool := Scalar.isFinite factor && !Scalar.isZero factor

namespace Entry

def symbolFault? : List Char → Option EntryFault
  | [] => some .emptySymbol
  | c::s =>
    if isNumericStart c then some .numericStart
    else if (c::s).any isSeparator then some .separatorInSymbol
    else none

def conversionFault? (c : Conversion) : Option EntryFault :=
  if !isUsable c.factor then some .badFactor
  else if c.offset?.any (!Scalar.isFinite ·) then some .badOffset
  else none

/-- The symbol is looked at first. -/
def fault? (e : Entry) : Option EntryFault :=
  (symbolFault? e.symbol).or (conversionFault? e.conversion)

theorem fault?_eq_none_iff (e : Entry) :
    e.fault? = none ↔ symbolFault? e.symbol = none ∧ conversionFault? e.conversion = none := by
  simp [fault?,Option.or_eq_none_iff]

def ofUnit {d : Dimension} (symbol : List Char) (u : UnitOf d) : Entry := ⟨symbol,d,u.conversion⟩

/-- The entry as a row of a table. -/
def text (e : Entry) : String :=
  "UnitRow \x7b symbol: " ++ Text.quote e.symbol ++ ", exponents: " ++ e.dimension.detailedText ++
    ", ratio: " ++ e.conversion.text ++ " \x7d"

end Entry

/-! Errors of a registry and the events it reports. -/

inductive FileFault
  | missing
  | notText

def FileFault.message : FileFault → String
  | missing => "No such file or directory (os error 2)"
  | notText => "stream did not contain valid UTF-8"

inductive RegistryError
  | duplicateSymbol (symbol : List Char)
  | invalidEntry (symbol : List Char) (fault : EntryFault)
  | definition (symbol : List Char) (source : ReadError)
  | unreadable (path : String) (fault : FileFault)
  | malformedCatalog

/-- A malformed catalog has no message of its own. -/
def RegistryError.message : RegistryError → String
  | duplicateSymbol symbol => "unit symbol " ++ Text.quote symbol ++ " is already registered"
  | invalidEntry symbol fault => "invalid unit " ++ Text.quote symbol ++ ": " ++ fault.message
  | definition symbol source =>
    "invalid definition for unit " ++ Text.quote symbol ++ ": " ++ source.message
  | unreadable path fault => "failed to read unit catalog " ++ path ++ ": " ++ fault.message
  | malformedCatalog => ""

inductive Level
  | debug
  | trace
  | warn

def Level.text : Level → String
  | debug => "DEBUG"
  | trace => "TRACE"
  | warn => "WARN"

inductive Event
  | builtinReady (size : Nat)
  | registered (e : Entry)
  | resolved (signature : List Char) (dimension : Dimension) (factor : Float)
  | resolvedOffset (signature symbol : List Char)
  | reading (path : String)
  | rejected (symbol : List Char) (error : RegistryError)
  | loaded (count : Nat)

namespace Event

def level : Event → Level
  | builtinReady _ | registered _ | reading _ | loaded _ => .debug
  | resolved .. | resolvedOffset .. => .trace
  | rejected .. => .warn

def message : Event → String
  | builtinReady size => "built-in unit registry holds " ++ toString size ++ " symbols"
  | registered e =>
    "registered unit " ++ Text.quote e.symbol ++ " (" ++ String.ofList e.dimension.text ++ ", " ++
      e.conversion.text ++ ")"
  | resolved signature dimension factor =>
    "resolved " ++ Text.quote signature ++ " to " ++ String.ofList dimension.text ++ " × " ++
      String.ofList (Decimal.plainText factor)
  | resolvedOffset signature symbol =>
    "resolved " ++ Text.quote signature ++ " to offset unit " ++ Text.quote symbol
  | reading path => "reading unit catalog " ++ path
  | rejected symbol error => "rejected catalog unit " ++ Text.quote symbol ++ ": " ++ error.message
  | loaded count => "loaded " ++ toString count ++ " units from catalog"

def line (e : Event) : String := e.level.text ++ " " ++ e.message

end Event

/-! Results of registry operations together with the events reported on the way. An operation that
fails has reported what came before the failure. -/

structure Outcome (ε α : Type) where
  events : List Event
  result : Except ε α

namespace Outcome
variable {ε ε' α β : Type}

def ofExcept (r : Except ε α) : Outcome ε α := ⟨[],r⟩

def fail (e : ε) : Outcome ε α := ⟨[],.error e⟩

def report (e : Event) : Outcome ε Unit := ⟨[e],.ok ()⟩

def andThen (x : Outcome ε α) (f : α → Outcome ε β) : Outcome ε β :=
  match x.result with
  | .error e => ⟨x.events,.error e⟩
  | .ok a => ⟨x.events ++ (f a).events,(f a).result⟩

instance : Monad (Outcome ε) where
  pure a := ⟨[],.ok a⟩
  bind := andThen

def mapError (f : ε → ε') (x : Outcome ε α) : Outcome ε' α := ⟨x.events,x.result.mapError f⟩

/-- One more event, should the operation have failed. -/
def reportError (f : ε → Event) (x : Outcome ε α) : Outcome ε α :=
  match x.result with
  | .error e => ⟨x.events ++ [f e],.error e⟩
  | .ok _ => x

@[simp] theorem result_pure (a : α) : (pure a : Outcome ε α).result = .ok a := rfl
@[simp] theorem result_ofExcept (r : Except ε α) : (ofExcept r).result = r := rfl
@[simp] theorem result_fail (e : ε) : (fail e : Outcome ε α).result = .error e := rfl
@[simp] theorem result_report (e : Event) : (report e : Outcome ε Unit).result = .ok () := rfl
@[simp] theorem result_mapError (f : ε → ε') (x : Outcome ε α) :
    (x.mapError f).result = x.result.mapError f := rfl

@[simp] theorem result_bind (x : Outcome ε α) (f : α → Outcome ε β) :
    (x >>= f).result = x.result.bind fun a => (f a).result := by
  change (andThen x f).result = _
  cases h : x.result <;> simp [andThen,h,Except.bind]

theorem bind_eq_ok_iff {x : Outcome ε α} {f : α → Outcome ε β} {b : β} :
    (x >>= f).result = .ok b ↔ ∃ a, x.result = .ok a ∧ (f a).result = .ok b := by
  rw [result_bind]
  cases x.result <;> simp [Except.bind]

theorem bind_eq_error_iff {x : Outcome ε α} {f : α → Outcome ε β} {e : ε} :
    (x >>= f).result = .error e ↔
      x.result = .error e ∨ ∃ a, x.result = .ok a ∧ (f a).result = .error e := by
  rw [result_bind]
  cases x.result <;> simp [Except.bind]

theorem mapError_eq_error_iff {f : ε → ε'} {r : Except ε α} {e' : ε'} :
    r.mapError f = .error e' ↔ ∃ e, r = .error e ∧ f e = e' := by
  constructor
  · intro h
    cases r with
    | error e => exact ⟨e,rfl,Except.error.inj h⟩
    | ok a => cases h
  · rintro ⟨e,rfl,rfl⟩
    rfl

theorem mapError_eq_ok_iff {f : ε → ε'} {r : Except ε α} {a : α} :
    r.mapError f = .ok a ↔ r = .ok a := by
  cases r with
  | error e =>
    constructor
    · intro h
      cases h
    · intro h
      cases h
  | ok b =>
    constructor
    · intro h
      cases h
      rfl
    · intro h
      cases h
      rfl

theorem exists_eq_ok {r : Except ε α} (h : r.toOption.isSome = true) : ∃ a, r = .ok a := by
  cases r with
  | ok a => exact ⟨a,rfl⟩
  | error e => simp [Except.toOption] at h

theorem events_bind_ok {x : Outcome ε α} {a : α} (h : x.result = .ok a) (f : α → Outcome ε β) :
    (x >>= f).events = x.events ++ (f a).events := by
  change (andThen x f).events = _
  simp [andThen,h]

theorem events_bind_error {x : Outcome ε α} {e : ε} (h : x.result = .error e)
    (f : α → Outcome ε β) : (x >>= f).events = x.events := by
  change (andThen x f).events = _
  simp [andThen,h]

@[simp] theorem result_reportError (f : ε → Event) (x : Outcome ε α) :
    (x.reportError f).result = x.result := by
  cases h : x.result <;> simp [reportError,h]

end Outcome
end Mensura
