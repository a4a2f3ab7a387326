import TableLexer.Text.Outline

/-!
# Actions

What a rule does with the character that it accepts. Two of the six actions have
no width: the character is looked at again in the next state.
-/

namespace TableLexer

inductive Action where
  /-- Look at the character again. -/
  | defer
  /-- Flush the held text, then look at the character again. -/
  | reduce
  /-- Hold the character. -/
  | shift
  /-- Hold the character, then flush. -/
  | shiftReduce
  /-- Drop the character. -/
  | skip
  /-- Drop the character, then flush. -/
  | skipReduce
  deriving DecidableEq, Repr

namespace Action

def all : List Action := [.defer, .reduce, .shift, .shiftReduce, .skip, .skipReduce]

def isZeroWidth : Action → Bool
  | .defer | .reduce => true
  | _ => false

def flushes : Action → Bool
  | .reduce | .shiftReduce | .skipReduce => true
  | _ => false

/-- Whether the character joins the held text. -/
def shifts : Action → Bool
  | .shift | .shiftReduce => true
  | _ => false

/-- The name used in tables and logs. -/
def name : Action → String
  | .defer => "DEFER"
  | .reduce => "REDUCE"
  | .shift => "SHIFT"
  | .shiftReduce => "SHIFT_REDUCE"
  | .skip => "SKIP"
  | .skipReduce => "SKIP_REDUCE"

def ofName? (s : String) : Option Action := all.find? fun a => a.name == s

instance : Described Action :=
  ⟨fun
    | .defer => .atom "Defer"
    | .reduce => .atom "Reduce"
    | .shift => .atom "Shift"
    | .shiftReduce => .atom "ShiftReduce"
    | .skip => .atom "Skip"
    | .skipReduce => .atom "SkipReduce"⟩

end Action

end TableLexer
