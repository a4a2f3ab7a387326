import Mathlib.Data.List.TakeWhile
import TableLexer.Json.Record
import TableLexer.Proofs.Literals

/-!
# The grammar of values

How the values of a document are written, with blanks around every token, and what it
means that a reader takes exactly the texts of some values off the front of a text
(`Reads`). A reader that does so takes whole texts with blanks around them
(`Reads.readAll_ok_iff`).
-/

namespace TableLexer.Json

/-- The values that records are made of. -/
inductive Value where
  | null
  | number (n : Nat)
  | string (s : String)
  | array (elements : List Value)
  | object (members : List (String × Value))

/-! ## How values are written -/

def Blank (cs : List Char) : Prop := ∀ c ∈ cs, isBlank c = true

instance : DecidablePred Blank := List.decidableBAll _

/-- What comes before an item: a comma, unless the item is the first. -/
def Lead : Bool → List Char → Prop
  | true, cs => Blank cs
  | false, cs => ∃ before after, Blank before ∧ Blank after ∧ cs = before ++ ',' :: after

/-- Items between brackets, from the first one on or after it. -/
inductive Items {α : Type} (Item : α → List Char → Prop) : Bool → List α → List Char → Prop where
  | nil {first : Bool} {blanks : List Char} (blank : Blank blanks) : Items Item first [] blanks
  | cons {first : Bool} {a : α} {items : List α} {lead item more : List Char}
      (leads : Lead first lead) (written : Item a item) (rest : Items Item false items more) :
    Items Item first (a :: items) (lead ++ (item ++ more))

/-- A key and its value. -/
inductive Member (Item : Value → List Char → Prop) : String × Value → List Char → Prop where
  | mk {key : String} {v : Value} {literal before after value : List Char}
      (spells : Spells literal key.toList) (blank : Blank before) (blank' : Blank after)
      (written : Item v value) :
    Member Item (key, v) ('"' :: (literal ++ '"' :: (before ++ ':' :: (after ++ value))))

/-- The texts of a value, without blanks around it. -/
inductive Written : Value → List Char → Prop where
  | null : Written .null ['n', 'u', 'l', 'l']
  | number {digits : List Char} (whole : Whole digits) :
    Written (.number (decimalValue digits)) digits
  | string {s : String} {literal : List Char} (spells : Spells literal s.toList) :
    Written (.string s) ('"' :: (literal ++ ['"']))
  | array {elements : List Value} {items : List Char}
      (written : Items Written true elements items) :
    Written (.array elements) ('[' :: (items ++ [']']))
  | object {members : List (String × Value)} {items : List Char}
      (written : Items (Member Written) true members items) :
    Written (.object members) ('\x7b' :: (items ++ ['\x7d']))

/-! ## Blanks -/

theorem Blank.nil : Blank [] := by simp [Blank]

theorem Blank.append {cs cs' : List Char} (blank : Blank cs) (blank' : Blank cs') :
    Blank (cs ++ cs') := by
  intro c member
  rcases List.mem_append.mp member with before | after
  · exact blank c before
  · exact blank' c after

theorem Lead.append {first : Bool} {cs cs' : List Char} (lead : Lead first cs) (blank : Blank cs') :
    Lead first (cs ++ cs') := by
  cases first with
  | true => exact Blank.append lead blank
  | false =>
    obtain ⟨before, after, blankBefore, blankAfter, rfl⟩ := lead
    exact ⟨before, after ++ cs', blankBefore, blankAfter.append blank, by simp⟩

theorem exists_blank_of_skipBlank {cs rest : List Char} (h : skipBlank cs = rest) :
    ∃ blanks, Blank blanks ∧ cs = blanks ++ rest :=
  ⟨cs.takeWhile isBlank, List.all_eq_true.mp List.all_takeWhile, by
    rw [← h, skipBlank, List.takeWhile_append_dropWhile]⟩

theorem skipBlank_append {blanks rest : List Char} {c : Char} (blank : Blank blanks)
    (mark : isBlank c = false) : skipBlank (blanks ++ c :: rest) = c :: rest := by
  rw [skipBlank, List.dropWhile_append_of_pos blank, List.dropWhile_cons_of_neg (by simp [mark])]

/-- A comma with blanks around it leads to the next item. -/
theorem exists_lead_of_comma {cs more : List Char} (comma : skipBlank cs = ',' :: more) :
    ∃ lead, Lead false lead ∧ cs = lead ++ skipBlank more := by
  obtain ⟨before, blank, rfl⟩ := exists_blank_of_skipBlank comma
  obtain ⟨after, blank', more_eq⟩ := exists_blank_of_skipBlank (rfl : skipBlank more = _)
  refine ⟨before ++ ',' :: after, ⟨before, after, blank, blank', rfl⟩, ?_⟩
  rw [List.append_assoc, List.cons_append, ← more_eq]

theorem not_continues_of_isBlank {c : Char} (blank : isBlank c = true) : ¬ Continues c := by
  simp only [isBlank, Bool.or_eq_true, beq_iff_eq] at blank
  obtain ((rfl | rfl) | rfl) | rfl := blank
  all_goals decide

theorem stops_of_blank {blanks rest : List Char} (blank : Blank blanks) (stops : Stops rest) :
    Stops (blanks ++ rest) := by
  cases blanks with
  | nil => exact stops
  | cons c more =>
    rintro _ ⟨⟩
    exact not_continues_of_isBlank (blank c List.mem_cons_self)

theorem stops_cons {c : Char} {rest : List Char} (mark : ¬ Continues c) : Stops (c :: rest) := by
  rintro _ ⟨⟩
  exact mark

/-- A number can end before the items that follow it. -/
theorem Items.stops {α : Type} {Item : α → List Char → Prop} {as : List α} {items rest : List Char}
    (written : Items Item false as items) (stops : Stops rest) : Stops (items ++ rest) := by
  cases written with
  | nil blank => exact stops_of_blank blank stops
  | cons leads _ _ =>
    obtain ⟨before, after, blank, -, rfl⟩ := leads
    simp only [List.append_assoc, List.cons_append]
    exact stops_of_blank blank (stops_cons (by decide))

/-! ## Readers and the values they accept -/

/-- A reader takes the texts of exactly those values that `decode` accepts off the front
of a text, and gives what they decode to. -/
structure Reads {β : Type} (read : Reader β) (decode : Value → Option β) : Prop where
  sound {cs rest : List Char} {b : β} : read cs = .ok (b, rest) →
    ∃ blanks value v, Blank blanks ∧ Written v value ∧ cs = blanks ++ (value ++ rest) ∧
      decode v = some b
  complete {blanks value rest : List Char} {v : Value} {b : β} : Blank blanks → Written v value →
    decode v = some b → Stops rest → read (blanks ++ (value ++ rest)) = .ok (b, rest)

theorem isBlank_of_isDigit {c : Char} (digit : isDigit c = true) : isBlank c = false := by
  rw [← Bool.not_eq_true]
  intro blank
  simp only [isBlank, Bool.or_eq_true, beq_iff_eq] at blank
  obtain ((rfl | rfl) | rfl) | rfl := blank
  all_goals cases digit

theorem Written.exists_cons {v : Value} {value : List Char} (written : Written v value) :
    ∃ c more, value = c :: more ∧ isBlank c = false ∧ c ≠ ']' := by
  cases written with
  | number whole =>
    obtain ⟨d, more, rfl, digit⟩ := whole.exists_cons
    refine ⟨d, more, rfl, isBlank_of_isDigit digit, ?_⟩
    rintro rfl
    cases digit
  | _ => exact ⟨_, _, rfl, rfl, by decide⟩

theorem expect_ok_iff {word cs rest : List Char} {u : Unit} :
    expect word cs = .ok (u, rest) ↔ cs = word ++ rest := by
  induction word generalizing cs with
  | nil => simp [expect, eq_comm]
  | cons w word ih =>
    cases cs with
    | nil => simp [expect]
    | cons c cs =>
      by_cases same : c = w <;> simp [expect, same, ih]

/-- A string, or null for none. -/
def Value.text? : Value → Option (Option String)
  | .null => some none
  | .string s => some (some s)
  | _ => none

/-- A natural number of one word. -/
def Value.word? : Value → Option UInt64
  | .number n => if n ≤ wordMax then some n.toUInt64 else none
  | _ => none

theorem readOptionalString_reads : Reads readOptionalString Value.text? where
  sound {cs rest b} h := by
    unfold readOptionalString at h
    split at h
    · next found =>
      obtain ⟨blanks, blank, rfl⟩ := exists_blank_of_skipBlank found
      obtain ⟨⟨u, _⟩, read, rfl, rfl⟩ := map_ok_iff.mp h
      obtain rfl := expect_ok_iff.mp read
      exact ⟨blanks, _, .null, blank, .null, rfl, rfl⟩
    · next found =>
      obtain ⟨blanks, blank, rfl⟩ := exists_blank_of_skipBlank found
      obtain ⟨⟨s, _⟩, read, rfl, rfl⟩ := map_ok_iff.mp h
      obtain ⟨literal, rfl, spells⟩ := readString_ok_iff.mp read
      exact ⟨blanks, _, .string s, blank, .string spells, by simp, rfl⟩
    · cases h
  complete {blanks value rest v b} blank written means stops := by
    cases written with
    | null =>
      cases means
      rw [readOptionalString, List.cons_append, skipBlank_append blank rfl]
      exact map_ok_iff.mpr ⟨((), rest), expect_ok_iff.mpr rfl, rfl⟩
    | @string s literal spells =>
      cases means
      rw [readOptionalString, List.cons_append, skipBlank_append blank rfl]
      exact map_ok_iff.mpr ⟨(s, rest), readString_ok_iff.mpr ⟨literal, by simp, spells⟩, rfl⟩
    | _ => cases means

theorem readWord_reads : Reads readWord Value.word? where
  sound {cs rest b} h := by
    unfold readWord at h
    split at h
    · cases h
    · next c more found =>
      obtain ⟨blanks, blank, rfl⟩ := exists_blank_of_skipBlank found
      split at h
      · split at h
        · cases h
        · next n after read =>
          cases h
          obtain ⟨digits, read_eq, whole, value_eq, word⟩ := readNumber_some read
          refine ⟨blanks, digits, .number n, blank, value_eq ▸ .number whole, read_eq ▸ rfl, ?_⟩
          simp [Value.word?, word]
        · cases h
      · cases h
  complete {blanks value rest v b} blank written means stops := by
    cases written with
    | number whole =>
      simp only [Value.word?, Option.ite_none_right_eq_some, Option.some.injEq] at means
      obtain ⟨word, rfl⟩ := means
      have read := readNumber_append whole word stops
      obtain ⟨d, more, rfl, digit⟩ := whole.exists_cons
      rw [readWord, List.cons_append, skipBlank_append blank (isBlank_of_isDigit digit)]
      simp only [digit, or_true, if_true, ← List.cons_append, read]
    | _ => cases means

/-! ## Whole texts -/

/-- The text is that of one value, with blanks around it. -/
def Denotes (text : String) (v : Value) : Prop :=
  ∃ before value after, Blank before ∧ Written v value ∧ Blank after ∧
    text.toList = before ++ (value ++ after)

theorem Reads.readAll_ok_iff {β : Type} {read : Reader β} {decode : Value → Option β}
    (reads : Reads read decode) {text : String} {b : β} :
    readAll read text = .ok b ↔ ∃ v, Denotes text v ∧ decode v = some b := by
  constructor
  · intro h
    unfold readAll at h
    split at h
    · cases h
    · next value rest taken =>
      split at h
      · next empty =>
        cases h
        obtain ⟨before, value, v, blank, written, split, means⟩ := reads.sound taken
        obtain ⟨after, blank', rest_eq⟩ := exists_blank_of_skipBlank (List.isEmpty_iff.mp empty)
        rw [List.append_nil] at rest_eq
        exact ⟨v, ⟨before, value, rest, blank, written, rest_eq ▸ blank', split⟩, means⟩
      · cases h
  · rintro ⟨v, ⟨before, value, after, blank, written, blank', split⟩, means⟩
    have stops : Stops after := List.append_nil after ▸ stops_of_blank blank' (by simp [Stops])
    rw [readAll, split, reads.complete blank written means stops]
    have empty : skipBlank after = [] := List.dropWhile_eq_nil_iff.mpr blank'
    simp [empty]

end TableLexer.Json
