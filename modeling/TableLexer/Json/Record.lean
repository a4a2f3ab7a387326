import TableLexer.Json.NumberLiteral
import TableLexer.Json.StringLiteral

/-!
# Records

A record with known fields is read from an object, with its keys in any order, or
from an array, with its fields in their own order. Fields that are absent keep the
value they had. A key that is not a field, or that comes twice, is refused as soon
as it has been read.
-/

namespace TableLexer.Json

/-- The problem with a value that has been read though another type is asked for:
its own problem comes first. -/
def Problem.ofMismatch {β : Type} : Except Problem β → Problem
  | .error p => p
  | .ok _ => .unsuitable

/-- The problem with a value of the wrong type, given from its first character. A
scalar is read to its end; of an array or object the bracket is enough. -/
def mismatch (cs : List Char) : Problem :=
  match cs with
  | [] => .unfinished
  | 'n' :: cs => .ofMismatch (expect ['u', 'l', 'l'] cs)
  | 't' :: cs => .ofMismatch (expect ['r', 'u', 'e'] cs)
  | 'f' :: cs => .ofMismatch (expect ['a', 'l', 's', 'e'] cs)
  | '"' :: cs => .ofMismatch (readChars cs)
  | '[' :: _ | '\x7b' :: _ => .unsuitable
  | c :: _ => if c = '-' ∨ isDigit c then .ofMismatch (readNumber cs) else .illFormed

/-- A string or null. -/
def readOptionalString : Reader (Option String) := fun cs =>
  match skipBlank cs with
  | 'n' :: cs => (expect ['u', 'l', 'l'] cs).map fun (_, rest) => (none, rest)
  | '"' :: cs => (readString cs).map fun (s, rest) => (some s, rest)
  | cs => .error (mismatch cs)

/-- A natural number of one word. -/
def readWord : Reader UInt64 := fun cs =>
  match skipBlank cs with
  | [] => .error .unfinished
  | c :: cs =>
    if c = '-' ∨ isDigit c then
      match readNumber (c :: cs) with
      | .error p => .error p
      | .ok (some n, rest) => .ok (n.toUInt64, rest)
      | .ok (none, _) => .error .unsuitable
    else .error (mismatch (c :: cs))

/-- A field of a record, and how its value is read into the record. -/
structure RecordField (ρ : Type) where
  key : String
  read : ρ → Reader ρ

/-- Where an array or object goes on: after its closing bracket, or at the element
or inside the quotes of the key that comes next. -/
inductive Place where
  | finish (rest : List Char)
  | entry (rest : List Char)

/-- The place after the opening bracket of an array, or after an element of it. -/
def nextElement (first : Bool) (cs : List Char) : Except Problem Place :=
  match skipBlank cs with
  | [] => .error .unfinished
  | ']' :: rest => .ok (.finish rest)
  | c :: rest =>
    if first then .ok (.entry (c :: rest))
    else if c = ',' then
      match skipBlank rest with
      | [] => .error .unfinished
      | ']' :: _ => .error .illFormed
      | rest => .ok (.entry rest)
    else .error .illFormed

/-- The place after the opening bracket of an object, or after a member of it. -/
def nextMember (first : Bool) (cs : List Char) : Except Problem Place :=
  match skipBlank cs with
  | [] => .error .unfinished
  | '\x7d' :: rest => .ok (.finish rest)
  | c :: rest =>
    if first then if c = '"' then .ok (.entry rest) else .error .illFormed
    else if c = ',' then
      match skipBlank rest with
      | [] => .error .unfinished
      | '"' :: rest => .ok (.entry rest)
      | _ => .error .illFormed
    else .error .illFormed

def readColon (cs : List Char) : Except Problem (List Char) :=
  match skipBlank cs with
  | [] => .error .unfinished
  | ':' :: rest => .ok rest
  | _ => .error .illFormed

/-- The closing bracket of an array whose fields have all been read. -/
def readClosing (cs : List Char) : Except Problem (List Char) :=
  match skipBlank cs with
  | [] => .error .unfinished
  | ']' :: rest => .ok rest
  | _ => .error .illFormed

section

variable {ρ : Type}

/-- The fields of a record from the elements of an array. The array may stop early,
but it cannot go on after the last field. -/
def readElements (first : Bool) : List (RecordField ρ) → ρ → Reader ρ
  | [], r, cs => (readClosing cs).map fun rest => (r, rest)
  | field :: fields, r, cs =>
    match nextElement first cs with
    | .error p => .error p
    | .ok (.finish rest) => .ok (r, rest)
    | .ok (.entry cs) =>
      match field.read r cs with
      | .error p => .error p
      | .ok (r, rest) => readElements false fields r rest

/-- The field with the given key, and the other fields, which are fewer. -/
def pick (key : String) : (fields : List (RecordField ρ)) →
    Option (RecordField ρ × { others : List (RecordField ρ) // others.length < fields.length })
  | [] => none
  | field :: fields =>
    if field.key = key then some (field, ⟨fields, by simp⟩)
    else
      match pick key fields with
      | none => none
      | some (found, ⟨others, h⟩) => some (found, ⟨field :: others, by simpa using h⟩)

/-- The fields of a record from the members of an object. A field that has been read
is not among `fields` any more. -/
def readMembers (first : Bool) (fields : List (RecordField ρ)) (r : ρ) (cs : List Char) :
    Except Problem (ρ × List Char) :=
  match nextMember first cs with
  | .error p => .error p
  | .ok (.finish rest) => .ok (r, rest)
  | .ok (.entry cs) =>
    match readString cs with
    | .error p => .error p
    | .ok (key, cs) =>
      match pick key fields with
      | none => .error .unsuitable
      | some (field, ⟨others, _⟩) =>
        match readColon cs with
        | .error p => .error p
        | .ok cs =>
          match field.read r cs with
          | .error p => .error p
          | .ok (r, rest) => readMembers false others r rest
termination_by fields.length

/-- A record in one of its two shapes, starting from `r`. -/
def readRecord (fields : List (RecordField ρ)) (r : ρ) : Reader ρ := fun cs =>
  match skipBlank cs with
  | '[' :: cs => readElements true fields r cs
  | '\x7b' :: cs => readMembers true fields r cs
  | cs => .error (mismatch cs)

end

end TableLexer.Json
