import TableLexer.Draft
import TableLexer.Log.Format
import TableLexer.Settings.Document

/-!
# The setup of a process

A process has settings and a logger, and each of them can be put in place once.
The logger keeps the levels that were in force when it was installed.
-/

namespace TableLexer

structure Logger where
  format : LogFormat
  levels : Levels
  deriving DecidableEq, Repr

structure Setup where
  settings : Option Settings := none
  logger : Option Logger := none
  deriving DecidableEq, Repr

namespace Setup

/-- Set the settings, unless they have been set. -/
def configure? (s : Setup) (settings : Settings) : Except SettingsError Setup :=
  match s.settings with
  | none => .ok { s with settings := some settings }
  | some _ => .error .alreadyInitialized

/-- The settings in force: the defaults before any have been set. -/
def current (s : Setup) : Settings := s.settings.getD {}

def limits (s : Setup) : Limits := s.current.limits

/-- A draft that starts from the limits in force. -/
def draft {α : Type} (s : Setup) (init : α) : Draft α := Draft.start init s.limits

/-- Install a logger, unless there is one. -/
def install? (s : Setup) (format : LogFormat) : Option Setup :=
  match s.logger with
  | none => some { s with logger := some ⟨format, s.current.levels⟩ }
  | some _ => none

/-- Whether events of a phase are logged down to the debug level. -/
def isEnabled (s : Setup) (phase : Phase) : Bool :=
  match s.logger with
  | none => false
  | some logger => logger.levels.enables phase.target .debug

/-- What the logger prints for a run of events. -/
def lines {α : Type} [Described α] (s : Setup) (events : List (Event α)) : List String :=
  match s.logger with
  | none => []
  | some logger =>
    (events.filter fun e => logger.levels.enables e.phase.target e.level).map logger.format.line

end Setup

end TableLexer
