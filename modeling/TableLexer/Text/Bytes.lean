/-!
# Size in bytes

The number of bytes that characters take in UTF-8.
-/

namespace TableLexer.Text

def byteCount : List Char → Nat
  | [] => 0
  | c :: cs => c.utf8Size + byteCount cs

@[simp] theorem byteCount_nil : byteCount [] = 0 := rfl
@[simp] theorem byteCount_cons (c : Char) (cs : List Char) :
    byteCount (c :: cs) = c.utf8Size + byteCount cs := rfl

/-- A character takes at least one byte and at most four. -/
theorem byteCount_bounds (cs : List Char) :
    cs.length ≤ byteCount cs ∧ byteCount cs ≤ 4 * cs.length := by
  induction cs with
  | nil => simp
  | cons c cs ih =>
    have := c.utf8Size_pos
    have := c.utf8Size_le_four
    simp only [byteCount_cons, List.length_cons]
    omega

end TableLexer.Text
