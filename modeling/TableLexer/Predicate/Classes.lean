import TableLexer.Predicate

/-!
# Named characters and classes

The characters and the classes of characters that tables are usually written
with, each with the name it is looked up by.
-/

namespace TableLexer.Classes

/-- The named characters, in the order in which they are listed. -/
def characters : List (String × Char) := [
  ("NUL", '\x00'), ("BS", '\x08'), ("HT", '\t'), ("LF", '\n'), ("VT", '\x0b'), ("FF", '\x0c'),
  ("CR", '\r'), ("ESC", '\x1b'), ("FS", '\x1c'), ("GS", '\x1d'), ("RS", '\x1e'), ("US", '\x1f'),
  ("DQ", '"'), ("QT", '\''), ("BACKSLASH", '\\'), ("DEL", '\x7f')]

def ascii : Predicate := .range '\x00' '\x7f'
def control : Predicate := .range '\x00' '\x1f'
def space : Predicate := .only ' '
def digit : Predicate := .range '0' '9'
def lower : Predicate := .range 'a' 'z'
def upper : Predicate := .range 'A' 'Z'

/-- Every named class: each named character alone, then the wider classes. -/
def all : List (String × Predicate) :=
  characters.map (fun c => (c.1, .only c.2)) ++
    [("ASCII", ascii), ("CONTROL", control), ("SPACE", space), ("DIGIT", digit),
      ("LOWER", lower), ("UPPER", upper), ("ANY", .any)]

def find? (name : String) : Option Predicate :=
  (all.find? fun c => c.1 == name).map (·.2)

/-- The code points from 0 up to `last` that `p` accepts. -/
def members (p : Predicate) (last : Nat) : List Nat :=
  (List.range (last + 1)).filter fun n => n.isValidChar && p.accepts (Char.ofNat n)

end TableLexer.Classes
