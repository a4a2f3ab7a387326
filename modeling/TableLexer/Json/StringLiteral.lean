import TableLexer.Json.Reader
import TableLexer.Text.Bytes

/-!
# String literals

A string literal stands between double quotes. Control characters have to be
escaped; a character outside the basic plane may be escaped as a pair of
surrogates, and a surrogate without its partner is an error.
-/

namespace TableLexer.Json

def hexValue? (c : Char) : Option Nat :=
  if '0' ≤ c ∧ c ≤ '9' then some (c.toNat - '0'.toNat)
  else if 'a' ≤ c ∧ c ≤ 'f' then some (c.toNat - 'a'.toNat + 10)
  else if 'A' ≤ c ∧ c ≤ 'F' then some (c.toNat - 'A'.toNat + 10)
  else none

/-- Four hexadecimal digits. The end of the text is noticed before they are looked
at, in bytes of UTF-8. -/
def readUnit (cs : List Char) : Except Problem (Nat × List Char) :=
  if Text.byteCount (cs.take 4) < 4 then .error .unfinished
  else
    match cs with
    | a :: b :: c :: d :: rest =>
      match hexValue? a, hexValue? b, hexValue? c, hexValue? d with
      | some a, some b, some c, some d => .ok (((a * 16 + b) * 16 + c) * 16 + d, rest)
      | _, _, _, _ => .error .illFormed
    | _ => .error .illFormed

def isLeading (n : Nat) : Bool := 0xd800 ≤ n && n ≤ 0xdbff

def isTrailing (n : Nat) : Bool := 0xdc00 ≤ n && n ≤ 0xdfff

/-- The escape of the second half of a surrogate pair that begins with `leading`. -/
def readPartner (leading : Nat) : List Char → Except Problem (Char × List Char)
  | [] | ['\\'] => .error .unfinished
  | '\\' :: 'u' :: cs =>
    match readUnit cs with
    | .error p => .error p
    | .ok (n, rest) =>
      if isTrailing n then
        .ok (Char.ofNat (0x10000 + (leading - 0xd800) * 0x400 + (n - 0xdc00)), rest)
      else .error .illFormed
  | _ => .error .illFormed

/-- A character by its number. -/
def readNumbered (cs : List Char) : Except Problem (Char × List Char) :=
  match readUnit cs with
  | .error p => .error p
  | .ok (n, rest) =>
    if isTrailing n then .error .illFormed
    else if isLeading n then readPartner n rest
    else .ok (Char.ofNat n, rest)

/-- What follows a backslash. -/
def readEscape : List Char → Except Problem (Char × List Char)
  | [] => .error .unfinished
  | 'u' :: cs => readNumbered cs
  | c :: cs =>
    match c with
    | '"' => .ok ('"', cs)
    | '\\' => .ok ('\\', cs)
    | '/' => .ok ('/', cs)
    | 'b' => .ok ('\x08', cs)
    | 'f' => .ok ('\x0c', cs)
    | 'n' => .ok ('\n', cs)
    | 'r' => .ok ('\r', cs)
    | 't' => .ok ('\t', cs)
    | _ => .error .illFormed

theorem readUnit_length {cs rest : List Char} {n : Nat} (h : readUnit cs = .ok (n, rest)) :
    rest.length < cs.length := by
  unfold readUnit at h
  split at h
  · simp at h
  · split at h
    · split at h
      · simp only [Except.ok.injEq, Prod.mk.injEq] at h
        simp only [← h.2, List.length_cons]
        omega
      · simp at h
    · simp at h

theorem readPartner_length {leading : Nat} {cs rest : List Char} {c : Char}
    (h : readPartner leading cs = .ok (c, rest)) : rest.length < cs.length := by
  unfold readPartner at h
  split at h
  · simp at h
  · simp at h
  · split at h
    · simp at h
    · next hu =>
      have := readUnit_length hu
      split at h
      · simp only [Except.ok.injEq, Prod.mk.injEq] at h
        simp only [← h.2, List.length_cons]
        omega
      · simp at h
  · simp at h

theorem readNumbered_length {cs rest : List Char} {c : Char}
    (h : readNumbered cs = .ok (c, rest)) : rest.length < cs.length := by
  unfold readNumbered at h
  split at h
  · simp at h
  · next hu =>
    have := readUnit_length hu
    split at h
    · simp at h
    · split at h
      · have := readPartner_length h
        omega
      · simp only [Except.ok.injEq, Prod.mk.injEq] at h
        simpa [← h.2] using this

theorem readEscape_length {cs rest : List Char} {c : Char}
    (h : readEscape cs = .ok (c, rest)) : rest.length < cs.length := by
  unfold readEscape at h
  split at h
  · simp at h
  · have := readNumbered_length h
    simp only [List.length_cons]
    omega
  · split at h <;> simp at h <;> simp [← h.2]

/-- What follows a backslash, knowing that it takes up characters. -/
def readEscapeShorter (cs : List Char) :
    { r : Except Problem (Char × List Char) //
      ∀ c rest, r = .ok (c, rest) → rest.length < cs.length } :=
  ⟨readEscape cs, fun _ _ => readEscape_length⟩

/-- The characters up to the closing quote. -/
def readChars (cs : List Char) : Except Problem (List Char × List Char) :=
  match cs with
  | [] => .error .unfinished
  | '"' :: rest => .ok ([], rest)
  | '\\' :: rest =>
    match readEscapeShorter rest with
    | ⟨.error p, _⟩ => .error p
    | ⟨.ok (c, after), _⟩ => (readChars after).map fun (cs, rest) => (c :: cs, rest)
  | c :: rest =>
    if c.toNat < 0x20 then .error .illFormed
    else (readChars rest).map fun (cs, rest) => (c :: cs, rest)
termination_by cs.length
decreasing_by
  · rename_i shorter
    have := shorter c after rfl
    simp only [List.length_cons]
    omega
  · simp

/-- A string after its opening quote. -/
def readString (cs : List Char) : Except Problem (String × List Char) :=
  (readChars cs).map fun (cs, rest) => (String.ofList cs, rest)

end TableLexer.Json
