import TableLexer.Json.Record
import TableLexer.Settings

/-!
# Settings documents

Settings are read from a JSON document. All of it may be left out. The levels are
checked after the whole document has been read, in a fixed order.
-/

namespace TableLexer

/-- Why settings cannot be had, or cannot be set. -/
inductive SettingsError where
  | malformed (problem : Json.Problem)
  | invalidLevel (text : String)
  | alreadyInitialized
  deriving DecidableEq, Repr

/-- The message of an error; a malformed document has only a category. -/
def SettingsError.message : SettingsError → String
  | .malformed problem => problem.category
  | .invalidLevel text => "invalid log level " ++ describe text
  | .alreadyInitialized => "config already initialized"

namespace Level

/-- A decimal number, which may begin with a plus sign and with zeros. -/
def number? (cs : List Char) : Option Nat :=
  let digits := match cs with
    | '+' :: cs => cs
    | cs => cs
  if !digits.isEmpty && digits.all Json.isDigit then some (Json.decimalValue digits) else none

/-- A level by its number or, ignoring case, by its name. -/
def ofText? (text : String) : Option Level :=
  match number? text.toList with
  | some n => all.find? fun l => l.verbosity == n
  | none => all.find? fun l => text.toList.map Char.toLower == l.lowerName.toList

end Level

/-- The levels as they are written. -/
structure LevelTexts where
  global : Option String := none
  build : Option String := none
  lexer : Option String := none
  deriving DecidableEq, Repr

structure Document where
  levels : LevelTexts := {}
  limits : Limits := {}
  deriving DecidableEq, Repr

namespace Document

open Json (RecordField Reader readRecord readOptionalString readWord readAll)

/-- A field whose value is read on its own and then put into the record. -/
def field {ρ β : Type} (key : String) (read : Reader β) (put : ρ → β → ρ) :
    RecordField ρ where
  key := key
  read r cs := (read cs).map fun (value, rest) => (put r value, rest)

def levelFields : List (RecordField LevelTexts) := [
  field "global" readOptionalString fun r s => { r with global := s },
  field "build" readOptionalString fun r s => { r with build := s },
  field "lexer" readOptionalString fun r s => { r with lexer := s }]

def limitFields : List (RecordField Limits) := [
  field Limits.key readWord fun r n => { r with maxHops := n }]

def fields : List (RecordField Document) := [
  field "log" (readRecord levelFields {}) fun r levels => { r with levels },
  field "limits" (readRecord limitFields {}) fun r limits => { r with limits }]

def read (text : String) : Except Json.Problem Document := readAll (readRecord fields {}) text

end Document

/-- Limits on their own. -/
def Limits.read (text : String) : Except Json.Problem Limits :=
  Json.readAll (Json.readRecord Document.limitFields {}) text

namespace Settings

def readLevel (text : String) : Except SettingsError Level :=
  match Level.ofText? text with
  | some level => .ok level
  | none => .error (.invalidLevel text)

def readOptionalLevel : Option String → Except SettingsError (Option Level)
  | none => .ok none
  | some text => (readLevel text).map some

/-- The settings that a document stands for. -/
def ofDocument (d : Document) : Except SettingsError Settings := do
  let global ← readOptionalLevel d.levels.global
  let build ← readOptionalLevel d.levels.build
  let lexer ← readOptionalLevel d.levels.lexer
  return { levels := { global := global.getD .info, build, lexer }, limits := d.limits }

def read (text : String) : Except SettingsError Settings :=
  match Document.read text with
  | .error problem => .error (.malformed problem)
  | .ok d => ofDocument d

end Settings

end TableLexer
