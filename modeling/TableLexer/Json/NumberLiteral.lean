import TableLexer.Json.Reader

/-!
# Number literals

A literal is kept as it is written: sign, whole digits, fraction and exponent. A
natural number of one machine word is read exactly. Every other number is taken as
a double, and is an error only if it is too big for one. The double is reckoned
from a significand of one word that takes in as many of the digits as fit, times a
power of ten; digits of the whole part that do not fit raise the exponent.
-/

namespace TableLexer.Json

structure NumberLiteral where
  negative : Bool
  whole : List Char
  /-- The digits after the point, if there is a point. -/
  fraction : Option (List Char)
  /-- Whether the exponent is negative, and its digits. -/
  exponent : Option (Bool × List Char)
  deriving DecidableEq, Repr

def isDigit (c : Char) : Bool := '0' ≤ c && c ≤ '9'

def digitValue (c : Char) : Nat := c.toNat - '0'.toNat

def decimalValue (digits : List Char) : Nat :=
  digits.foldl (fun n c => n * 10 + digitValue c) 0

/-- One digit at least. -/
def readDigits (cs : List Char) : Except Problem (List Char × List Char) :=
  match cs with
  | [] => .error .unfinished
  | c :: _ => if isDigit c then .ok (cs.span isDigit) else .error .illFormed

/-- A whole part has no digit after a leading zero. -/
def readWhole (cs : List Char) : Except Problem (List Char × List Char) :=
  match readDigits cs with
  | .ok ('0' :: _ :: _, _) => .error .illFormed
  | result => result

def readFraction : List Char → Except Problem (Option (List Char) × List Char)
  | '.' :: cs => (readDigits cs).map fun (digits, rest) => (some digits, rest)
  | cs => .ok (none, cs)

def readExponent : List Char → Except Problem (Option (Bool × List Char) × List Char)
  | [] => .ok (none, [])
  | c :: cs =>
    if c = 'e' ∨ c = 'E' then
      match cs with
      | '-' :: cs => (readDigits cs).map fun (digits, rest) => (some (true, digits), rest)
      | '+' :: cs => (readDigits cs).map fun (digits, rest) => (some (false, digits), rest)
      | cs => (readDigits cs).map fun (digits, rest) => (some (false, digits), rest)
    else .ok (none, c :: cs)

def readLiteral (cs : List Char) : Except Problem (NumberLiteral × List Char) := do
  let (negative, cs) := match cs with
    | '-' :: cs => (true, cs)
    | cs => (false, cs)
  let (whole, cs) ← readWhole cs
  let (fraction, cs) ← readFraction cs
  let (exponent, cs) ← readExponent cs
  return (⟨negative, whole, fraction, exponent⟩, cs)

/-- The greatest word. -/
def wordMax : Nat := UInt64.size - 1

/-- Take digits into `n` as long as the result is a word. What does not fit is
left. -/
def absorb (n : Nat) : List Char → Nat × List Char
  | [] => (n, [])
  | c :: cs =>
    if n * 10 + digitValue c ≤ wordMax then absorb (n * 10 + digitValue c) cs else (n, c :: cs)

/-- The nearest number with 53 significant bits, of two the one that is even in its
last place. -/
def round53 (n : Nat) : Nat :=
  if n < Nat.pow 2 53 then n
  else
    let low := Nat.pow 2 (n.log2 - 52)
    let q := n / low
    let r := n % low
    if low < 2 * r ∨ low = 2 * r ∧ q % 2 = 1 then (q + 1) * low else q * low

namespace NumberLiteral

/-- The value of a natural number without sign, point and exponent. -/
def natural? (l : NumberLiteral) : Option Nat :=
  if l.negative ∨ l.fraction.isSome ∨ l.exponent.isSome then none
  else if decimalValue l.whole ≤ wordMax then some (decimalValue l.whole)
  else none

/-- The significand and the exponent of ten. -/
def scientific (l : NumberLiteral) : Nat × Int :=
  let (n, beyond) := absorb 0 l.whole
  let digits := l.fraction.getD []
  let (n, beneath) := absorb n digits
  let shift : Int := match l.exponent with
    | none => 0
    | some (true, digits) => -(decimalValue digits : Int)
    | some (false, digits) => decimalValue digits
  (n, (beyond.length : Int) - ((digits.length - beneath.length : Nat) : Int) + shift)

/-- The least number that is nearer to the power of two past the doubles than to the
greatest double, or as near. -/
def infinite : Nat := Nat.pow 2 1024 - Nat.pow 2 970

/-- Whether the number is past the greatest double. Powers of ten above 308 are. -/
def overflows (l : NumberLiteral) : Bool :=
  let (n, e) := l.scientific
  if n = 0 ∨ e < 0 then false
  else 308 < e || infinite ≤ round53 n * round53 (Nat.pow 10 e.toNat)

end NumberLiteral

/-- A number: its value if it is a natural number of one word. -/
def readNumber (cs : List Char) : Except Problem (Option Nat × List Char) :=
  match readLiteral cs with
  | .error p => .error p
  | .ok (l, rest) =>
    match l.natural? with
    | some n => .ok (some n, rest)
    | none => if l.overflows then .error .illFormed else .ok (none, rest)

end TableLexer.Json
