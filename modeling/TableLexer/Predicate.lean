import TableLexer.Text.Outline

/-!
# Predicates on one character

A predicate is a tree of tests. `accepts` is its Boolean value. `probe` evaluates
it from left to right and stops as soon as the value is known; besides the value
it reports the tests it has called, in order.
-/

namespace TableLexer

/-- A test supplied from outside, with a name to tell it by. -/
structure CharTest where
  name : String
  accepts : Char → Bool

inductive Predicate where
  | any
  | only (c : Char)
  /-- Every character from `first` to `last`, both included. -/
  | range (first last : Char)
  | test (t : CharTest)
  | and (p q : Predicate)
  | or (p q : Predicate)
  | not (p : Predicate)

namespace Predicate

def accepts (c : Char) : Predicate → Bool
  | .any => true
  | .only d => c == d
  | .range first last => decide (first ≤ c) && decide (c ≤ last)
  | .test t => t.accepts c
  | .and p q => p.accepts c && q.accepts c
  | .or p q => p.accepts c || q.accepts c
  | .not p => !p.accepts c

/-- Evaluation with short circuits: the value, and the tests called for it. -/
def probe (c : Char) : Predicate → Bool × List CharTest
  | .any => (true, [])
  | .only d => (c == d, [])
  | .range first last => (decide (first ≤ c) && decide (c ≤ last), [])
  | .test t => (t.accepts c, [t])
  | .and p q =>
    match p.probe c with
    | (true, called) =>
      let right := q.probe c
      (right.1, called ++ right.2)
    | (false, called) => (false, called)
  | .or p q =>
    match p.probe c with
    | (true, called) => (true, called)
    | (false, called) =>
      let right := q.probe c
      (right.1, called ++ right.2)
  | .not p =>
    let inner := p.probe c
    (!inner.1, inner.2)

/-- Stopping early does not change the value. -/
@[simp] theorem probe_fst (c : Char) (p : Predicate) : (p.probe c).1 = p.accepts c := by
  induction p with
  | any | only | range | test => rfl
  | and p q ihp ihq =>
    cases h : p.probe c with
    | mk value called => cases value <;> simp_all [probe, accepts]
  | or p q ihp ihq =>
    cases h : p.probe c with
    | mk value called => cases value <;> simp_all [probe, accepts]
  | not p ih => simp [probe, accepts, ih]

/-- The text of a predicate. Only negation goes without parentheses. -/
def text : Predicate → String
  | .any => "any"
  | .only c => Text.quoteChar c
  | .range first last => Text.quoteChar first ++ "..=" ++ Text.quoteChar last
  | .test _ => "fn"
  | .and p q => "(" ++ p.text ++ " && " ++ q.text ++ ")"
  | .or p q => "(" ++ p.text ++ " || " ++ q.text ++ ")"
  | .not p => "!" ++ p.text

instance : Described Predicate := ⟨fun p => .atom p.text⟩

end Predicate

end TableLexer
