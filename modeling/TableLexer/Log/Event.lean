import TableLexer.Action
import TableLexer.Error
import TableLexer.Log.Level
import TableLexer.Predicate

/-!
# Log events

Each event keeps the values it is about. Its level, phase and printed fields are
functions of it.
-/

namespace TableLexer

inductive Event (α : Type) where
  | ruleAdded (state : α) (pattern : Predicate) (action : Action) (next : α)
  | initUndefined (init : α)
  | targetUndefined (state next : α)
  | tableBuilt (init : α) (states rules : Nat)
  | factoryFailed (state : α) (message : String)
  | scanStarted (bytes : Nat)
  | downstreamStopped
  | hopLimitExceeded (ch : Char) (state : α) (hops : Nat)
  | ruleMissing (error : ScanError)
  | fired (ch : Char) (origin target : Nat) (action : Action) (hops : Nat)
  | flushed (state : α) (text : String) (atEnd emitted : Bool)

/-- The value of a printed field. -/
inductive Value where
  | text (s : String)
  | number (n : Nat)
  | flag (b : Bool)
  deriving DecidableEq, Repr

namespace Value

def toText : Value → String
  | .text s => s
  | .number n => describe n
  | .flag b => describe b

/-- The one-line text of `a` as a field. -/
def of {α : Type} [Described α] (a : α) : Value := .text (describe a)

end Value

namespace Event

variable {α : Type}

def level : Event α → Level
  | .ruleAdded .. | .fired .. => .trace
  | _ => .debug

def phase : Event α → Phase
  | .ruleAdded .. | .initUndefined .. | .targetUndefined .. | .tableBuilt ..
  | .factoryFailed .. => .build
  | _ => .lexer

def title : Event α → String
  | .ruleAdded .. => "Adding transition"
  | .initUndefined .. => "Initial state has no transitions"
  | .targetUndefined .. => "Transition into undefined state"
  | .tableBuilt .. => "Built transition table"
  | .factoryFailed .. => "Token factory check failed"
  | .scanStarted .. => "Starting scan"
  | .downstreamStopped => "Downstream stopped the scan"
  | .hopLimitExceeded .. => "Zero-width hop limit exceeded"
  | .ruleMissing .. => "Dispatch failed"
  | .fired .. => "Dispatch"
  | .flushed .. => "Flush"

/-- The fields after the title, in printed order. -/
def details [Described α] : Event α → List (String × Value)
  | .ruleAdded state pattern action next =>
    [("state", .of state), ("pattern", .of pattern), ("action", .text action.name),
      ("next", .of next)]
  | .initUndefined init => [("init", .of init)]
  | .targetUndefined state next => [("from", .of state), ("next", .of next)]
  | .tableBuilt init states rules =>
    [("init", .of init), ("states", .number states), ("rules", .number rules)]
  | .factoryFailed state message => [("state", .of state), ("message", .text message)]
  | .scanStarted bytes => [("len", .number bytes)]
  | .downstreamStopped => []
  | .hopLimitExceeded ch state hops =>
    [("ch", .of ch), ("state", .of state), ("hops", .number hops)]
  | .ruleMissing error => [("error", .text error.message)]
  | .fired ch origin target action hops =>
    [("ch", .of ch), ("from", .number origin), ("to", .number target),
      ("action", .text action.name), ("zero_width", .flag action.isZeroWidth),
      ("hops", .number hops)]
  | .flushed state text atEnd emitted =>
    [("state", .of (some state)), ("text", .of text), ("end", .flag atEnd),
      ("emitted", .flag emitted)]

/-- All fields; the title is the first one. -/
def fields [Described α] (e : Event α) : List (String × Value) :=
  ("message", .text e.title) :: e.details

end Event

end TableLexer
