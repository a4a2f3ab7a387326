import TableLexer.Text.Outline

/-!
# Token factories

A factory turns a flushed text into a token, or into none. It is foreign code: it
may look at every call made before, and it may fail. The calls are kept in order,
so a factory with a memory is still a function.
-/

namespace TableLexer

/-- One use of the factory: the state that flushes, the text, and whether the
input has ended. -/
structure Call (α : Type) where
  state : α
  text : String
  atEnd : Bool
  deriving DecidableEq, Repr

/-- A failure of foreign code, with its message if it has one. -/
structure Fault where
  message : Option String
  deriving DecidableEq, Repr

/-- The answer to a call, given the calls before it. -/
abbrev Factory (α τ : Type) := Array (Call α) → Call α → Except Fault (Option τ)

namespace Factory

variable {α τ υ : Type}

/-- The flushed text itself is the token; an empty text gives none. -/
def text : Factory α String := fun _ call =>
  .ok (if call.text.isEmpty then none else some call.text)

def map (f : τ → υ) (factory : Factory α τ) : Factory α υ := fun earlier call =>
  (factory earlier call).map (Option.map f)

end Factory

end TableLexer
