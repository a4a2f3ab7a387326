import TableLexer.Text.Outline

/-!
# Limits of a scan

How many zero-width hops one character may take. The limit is a machine word, and
so is the counter that is held against it.
-/

namespace TableLexer

structure Limits where
  maxHops : UInt64 := 3
  deriving DecidableEq, Repr

/-- The greatest value of a hop counter. -/
def hopCeiling : Nat := UInt64.size - 1

namespace Limits

/-- The key of the limit in documents and outlines. -/
def key : String := "max_zero_width_hops"

instance : Described Limits :=
  ⟨fun l => .record "LimitConfig" [(key, outline l.maxHops.toNat)]⟩

/-- The limits as a compact JSON object. -/
def json (l : Limits) : String :=
  "\x7b\"" ++ key ++ "\":" ++ l.maxHops.toNat.repr ++ "\x7d"

end Limits

end TableLexer
