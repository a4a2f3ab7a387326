import TableLexer.Limits
import TableLexer.Log.Level

/-!
# Settings

Log levels and limits for the whole process. A phase without a level of its own
logs at the global one.
-/

namespace TableLexer

structure Levels where
  global : Level := .info
  build : Option Level := none
  lexer : Option Level := none
  deriving DecidableEq, Repr

structure Settings where
  levels : Levels := {}
  limits : Limits := {}
  deriving DecidableEq, Repr

namespace Levels

def ofPhase (l : Levels) : Phase → Level
  | .build => l.build.getD l.global
  | .lexer => l.lexer.getD l.global

/-- The level that applies to a target: that of a phase whose target it begins with,
and otherwise the global one. -/
def ofTarget (l : Levels) (target : String) : Level :=
  match Phase.all.find? fun p => p.target.toList.isPrefixOf target.toList with
  | some phase => l.ofPhase phase
  | none => l.global

/-- Whether an event of the given level under `target` is logged. -/
def enables (l : Levels) (target : String) (event : Level) : Bool :=
  (l.ofTarget target).admits event

end Levels

end TableLexer
