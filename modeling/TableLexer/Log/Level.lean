import TableLexer.Text.Outline

/-!
# Log levels and phases

Levels are ordered by verbosity. Events belong to one of two phases, building a
table and running it, and each phase logs under a target of its own.
-/

namespace TableLexer

inductive Level where
  | error
  | warn
  | info
  | debug
  | trace
  deriving DecidableEq, Repr

namespace Level

def all : List Level := [.error, .warn, .info, .debug, .trace]

/-- How much a level lets through, from 1 to 5. -/
def verbosity : Level → Nat
  | .error => 1
  | .warn => 2
  | .info => 3
  | .debug => 4
  | .trace => 5

/-- Whether a filter at this level lets an event of level `event` pass. -/
def admits (filter event : Level) : Bool := event.verbosity ≤ filter.verbosity

def lowerName : Level → String
  | .error => "error"
  | .warn => "warn"
  | .info => "info"
  | .debug => "debug"
  | .trace => "trace"

def upperName : Level → String
  | .error => "ERROR"
  | .warn => "WARN"
  | .info => "INFO"
  | .debug => "DEBUG"
  | .trace => "TRACE"

def ofUpperName? (s : String) : Option Level := all.find? fun l => l.upperName == s

end Level

inductive Phase where
  | build
  | lexer
  deriving DecidableEq, Repr

namespace Phase

def all : List Phase := [.build, .lexer]

def name : Phase → String
  | .build => "build"
  | .lexer => "lexer"

def target (p : Phase) : String := "lextab::" ++ p.name

instance : Described Phase :=
  ⟨fun
    | .build => .atom "Build"
    | .lexer => .atom "Lexer"⟩

end Phase

end TableLexer
