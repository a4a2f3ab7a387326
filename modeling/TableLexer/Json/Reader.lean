/-!
# Reading JSON in order

A reader takes characters off the front of a text. The text is read once from left
to right, and the first problem met decides: the text may end too early, it may
not be JSON, or it may be JSON of a shape that is not asked for.
-/

namespace TableLexer.Json

/-- Why a text cannot be read. -/
inductive Problem where
  /-- The text ends inside a value. -/
  | unfinished
  /-- The text is not JSON. -/
  | illFormed
  /-- The text is JSON so far, but not of the shape asked for. -/
  | unsuitable
  deriving DecidableEq, Repr

def Problem.category : Problem → String
  | .unfinished => "Eof"
  | .illFormed => "Syntax"
  | .unsuitable => "Data"

/-- A value and the characters after it. -/
abbrev Reader (β : Type) := List Char → Except Problem (β × List Char)

def isBlank (c : Char) : Bool := c == ' ' || c == '\t' || c == '\n' || c == '\r'

def skipBlank (cs : List Char) : List Char := cs.dropWhile isBlank

/-- Read exactly the characters of `word`. -/
def expect : List Char → Reader Unit
  | [], cs => .ok ((), cs)
  | _ :: _, [] => .error .unfinished
  | w :: word, c :: cs => if c = w then expect word cs else .error .illFormed

/-- Read a text that holds one value and nothing but blanks around it. -/
def readAll {β : Type} (read : Reader β) (text : String) : Except Problem β :=
  match read text.toList with
  | .error p => .error p
  | .ok (value, rest) => if (skipBlank rest).isEmpty then .ok value else .error .illFormed

end TableLexer.Json
