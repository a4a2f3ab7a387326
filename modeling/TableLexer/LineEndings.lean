/-!
# Line endings

CR, LF and the pair CR LF all become one LF. One bit of memory is enough: whether
the character just read was a CR, because then an LF that follows belongs to it.
-/

namespace TableLexer

/-- The normalized form of a text that follows a CR exactly if `afterCr`. -/
def normalizeFrom : Bool → List Char → List Char
  | _, [] => []
  | afterCr, c :: cs =>
    if c = '\r' then '\n' :: normalizeFrom true cs
    else if c = '\n' ∧ afterCr then normalizeFrom false cs
    else c :: normalizeFrom false cs

def normalize (text : List Char) : List Char := normalizeFrom false text

def normalizeString (text : String) : String := String.ofList (normalize text.toList)

@[simp] theorem normalizeFrom_nil (b : Bool) : normalizeFrom b [] = [] := by
  cases b <;> rfl

@[simp] theorem normalizeFrom_cr (b : Bool) (cs : List Char) :
    normalizeFrom b ('\r' :: cs) = '\n' :: normalizeFrom true cs := by
  simp [normalizeFrom]

end TableLexer
