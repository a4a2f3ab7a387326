import TableLexer.Proofs.Records

/-!
# The language of settings documents

Which texts are settings documents, said without a reader: the text of one value, with
blanks around its tokens, in which each record is an object or an array of its fields, and
what such a document asks for. Settings are read from exactly the documents whose level
texts all name a level; otherwise the first text that names none is reported, in the order
of the fields and not in that of the document.
-/

namespace TableLexer

open Json

/-! ## Documents as values -/

namespace LevelTexts

def slots : List (Slot LevelTexts) := [
  ⟨"global", Json.Value.text?, fun r s => { r with global := s }⟩,
  ⟨"build", Json.Value.text?, fun r s => { r with build := s }⟩,
  ⟨"lexer", Json.Value.text?, fun r s => { r with lexer := s }⟩]

def ofValue? : Json.Value → Option LevelTexts := Json.Value.record? slots {}

theorem reads : Reads (readRecord Document.levelFields {}) ofValue? := by
  have text {put : LevelTexts → Option String → LevelTexts} {key : String} :
      Serves (Document.field key readOptionalString put) ⟨key, Json.Value.text?, put⟩ :=
    ⟨readOptionalString, rfl, readOptionalString_reads⟩
  have layout : Layout slots := ⟨by decide, by simp [slots]⟩
  exact readRecord_reads (.cons text (.cons text (.cons text .nil))) layout {}

end LevelTexts

namespace Limits

def slots : List (Slot Limits) := [⟨key, Json.Value.word?, fun r n => { r with maxHops := n }⟩]

theorem layout : Layout slots := ⟨by decide, by simp [slots]⟩

def ofValue? : Json.Value → Option Limits := Json.Value.record? slots {}

theorem reads : Reads (readRecord Document.limitFields {}) ofValue? :=
  readRecord_reads (.cons ⟨_, rfl, readWord_reads⟩ .nil) layout {}

end Limits

namespace Document

def slots : List (Slot Document) := [
  ⟨"log", LevelTexts.ofValue?, fun r levels => { r with levels }⟩,
  ⟨"limits", Limits.ofValue?, fun r limits => { r with limits }⟩]

theorem layout : Layout slots := ⟨by decide, by simp [slots]⟩

def ofValue? : Json.Value → Option Document := Json.Value.record? slots {}

theorem reads : Reads (readRecord fields {}) ofValue? :=
  readRecord_reads (.cons ⟨_, rfl, LevelTexts.reads⟩ (.cons ⟨_, rfl, Limits.reads⟩ .nil)) layout {}

/-- The text is that of the document. -/
def WrittenAs (d : Document) (text : String) : Prop :=
  ∃ v, Denotes text v ∧ ofValue? v = some d

theorem read_ok_iff {d : Document} {text : String} : read text = .ok d ↔ d.WrittenAs text :=
  reads.readAll_ok_iff

example : ofValue?
      (.object [("limits", .array [.number 7]), ("log", .array [.null, .string "2"])]) =
    some { levels := { build := some "2" }, limits := { maxHops := 7 } } := by
  decide

end Document

/-! ## Levels -/

namespace Level

/-- The texts that name a level: its number, with or without a plus sign and zeros before
it, or its name in letters of either case. -/
inductive Names (l : Level) (text : String) : Prop where
  | number {sign : List Char} {zeros : Nat} (signs : sign = [] ∨ sign = ['+'])
      (written : text.toList = sign ++ (List.replicate zeros '0' ++ [l.verbosity.digitChar]))
  | word (written : text.toList.map Char.toLower = l.lowerName.toList)

/-- What a field asks for that may be absent or null. -/
inductive Chosen : Option String → Option Level → Prop where
  | absent : Chosen none none
  | named {l : Level} {text : String} (names : l.Names text) : Chosen (some text) (some l)

/-- The first text of a list that names no level. -/
inductive FirstInvalid : List (Option String) → String → Prop where
  | here {text : String} {texts : List (Option String)} (invalid : ∀ l : Level, ¬ l.Names text) :
    FirstInvalid (some text :: texts) text
  | later {field : Option String} {level : Option Level} {text : String}
      {texts : List (Option String)} (valid : Chosen field level)
      (more : FirstInvalid texts text) : FirstInvalid (field :: texts) text

theorem find?_all_iff {p : Level → Bool} (unique : ∀ a b, p a = true → p b = true → a = b)
    {l : Level} : all.find? p = some l ↔ p l = true := by
  constructor
  · exact List.find?_some
  · intro found
    have member : l ∈ all := by cases l <;> decide
    obtain ⟨l', first⟩ := Option.isSome_iff_exists.mp
      (List.find?_isSome.mpr ⟨l, member, found⟩)
    rw [first, unique l' l (List.find?_some first) found]

theorem verbosity_injective {a b : Level} (same : a.verbosity = b.verbosity) : a = b := by
  cases a <;> cases b <;> first | rfl | cases same

theorem lowerName_injective {a b : Level} (same : a.lowerName.toList = b.lowerName.toList) :
    a = b := by
  cases a <;> cases b <;> first | rfl | simp [lowerName] at same

/-- Digits that make the number `n`. -/
def Numeral (digits : List Char) (n : Nat) : Prop :=
  digits ≠ [] ∧ (∀ d ∈ digits, isDigit d = true) ∧ decimalValue digits = n

theorem number?_plus_iff {digits : List Char} {n : Nat} :
    number? ('+' :: digits) = some n ↔ Numeral digits n := by
  simp [number?, Numeral, and_assoc]

theorem number?_cons_iff {c : Char} {cs : List Char} {n : Nat} (unsigned : c ≠ '+') :
    number? (c :: cs) = some n ↔ Numeral (c :: cs) n := by
  simp [number?, Numeral, unsigned, and_assoc]

theorem number?_eq_some_iff {cs : List Char} {n : Nat} : number? cs = some n ↔
    ∃ sign digits, (sign = [] ∨ sign = ['+']) ∧ cs = sign ++ digits ∧ Numeral digits n := by
  constructor
  · intro h
    cases cs with
    | nil => cases h
    | cons c cs =>
      by_cases plus : c = '+'
      · subst plus
        exact ⟨['+'], cs, .inr rfl, rfl, number?_plus_iff.mp h⟩
      · exact ⟨[], c :: cs, .inl rfl, rfl, (number?_cons_iff plus).mp h⟩
  · rintro ⟨sign, digits, rfl | rfl, rfl, numeral⟩
    · obtain ⟨d, more, rfl⟩ := List.exists_cons_of_ne_nil numeral.1
      refine (number?_cons_iff ?_).mpr numeral
      rintro rfl
      cases numeral.2.1 '+' List.mem_cons_self
    · exact number?_plus_iff.mpr numeral

theorem verbosity_bounds (l : Level) : 0 < l.verbosity ∧ l.verbosity < 10 := by
  cases l <;> decide

theorem toLower_of_isDigit {d : Char} (digit : isDigit d = true) : d.toLower = d := by
  obtain ⟨-, high⟩ := isDigit_iff.mp digit
  have below : ¬ (d.val ≥ 'A'.val ∧ d.val ≤ 'Z'.val) := by
    rw [ge_iff_le, UInt32.le_iff_toNat_le]
    change ¬ (65 ≤ d.toNat ∧ _)
    omega
  exact dif_neg below

/-- A name in letters is no number. -/
theorem number?_eq_none {l : Level} {cs : List Char}
    (written : cs.map Char.toLower = l.lowerName.toList) : number? cs = none := by
  -- a number begins with a plus sign or a digit, which are no letters in either case
  have letter : ∀ c ∈ l.lowerName.toList.head?, 97 ≤ c.toNat := by
    cases l <;> simp [lowerName]
  rw [← Option.not_isSome_iff_eq_none, Option.isSome_iff_exists]
  rintro ⟨n, number⟩
  obtain ⟨sign, digits, signs, rfl, nonempty, all, -⟩ := number?_eq_some_iff.mp number
  obtain ⟨d, more, rfl⟩ := List.exists_cons_of_ne_nil nonempty
  rw [← written] at letter
  rcases signs with rfl | rfl
  · have digit := all d (by simp)
    have low := letter d (by simp [toLower_of_isDigit digit])
    have high := (isDigit_iff.mp digit).2
    omega
  · exact absurd (letter '+' (by simp)) (by decide)

theorem ofText?_eq_some_iff {l : Level} {text : String} : ofText? text = some l ↔ l.Names text := by
  have byNumber {n : Nat} : all.find? (fun l => l.verbosity == n) = some l ↔ l.verbosity = n := by
    rw [find?_all_iff, beq_iff_eq]
    intro a b same same'
    exact verbosity_injective ((beq_iff_eq.mp same).trans (beq_iff_eq.mp same').symm)
  have byName : all.find? (fun l => text.toList.map Char.toLower == l.lowerName.toList) = some l ↔
      text.toList.map Char.toLower = l.lowerName.toList := by
    rw [find?_all_iff, beq_iff_eq]
    intro a b same same'
    exact lowerName_injective ((beq_iff_eq.mp same).symm.trans (beq_iff_eq.mp same'))
  constructor
  · intro h
    unfold ofText? at h
    split at h
    · next n number =>
      obtain rfl := byNumber.mp h
      obtain ⟨sign, digits, signs, written, -, digits_iff⟩ := number?_eq_some_iff.mp number
      obtain ⟨zeros, rfl⟩ :=
        (decimalValue_eq_iff l.verbosity_bounds.1 l.verbosity_bounds.2).mp digits_iff
      exact .number signs written
    · exact .word (byName.mp h)
  · rintro (⟨signs, written⟩ | written)
    · have number := number?_eq_some_iff.mpr ⟨_, _, signs, written, by simp,
        (decimalValue_eq_iff l.verbosity_bounds.1 l.verbosity_bounds.2).mpr ⟨_, rfl⟩⟩
      rw [ofText?, number]
      exact byNumber.mpr rfl
    · rw [ofText?, number?_eq_none written]
      exact byName.mpr written

end Level

/-! ## Settings -/

/-- The settings that a document asks for: what it leaves out is the default. -/
structure Document.Grants (d : Document) (settings : Settings) : Prop where
  global : ∃ level, Level.Chosen d.levels.global level ∧ settings.levels.global = level.getD .info
  build : Level.Chosen d.levels.build settings.levels.build
  lexer : Level.Chosen d.levels.lexer settings.levels.lexer
  limits : settings.limits = d.limits

def LevelTexts.inOrder (t : LevelTexts) : List (Option String) := [t.global, t.build, t.lexer]

namespace Settings

theorem readLevel_ok_iff {text : String} {l : Level} :
    readLevel text = .ok l ↔ l.Names text := by
  rw [← Level.ofText?_eq_some_iff, readLevel]
  cases Level.ofText? text <;> simp

theorem readLevel_error_iff {text : String} {e : SettingsError} :
    readLevel text = .error e ↔ e = .invalidLevel text ∧ ∀ l : Level, ¬ l.Names text := by
  simp only [← Level.ofText?_eq_some_iff, readLevel]
  cases Level.ofText? text <;> simp [eq_comm]

theorem readOptionalLevel_ok_iff {field : Option String} {level : Option Level} :
    readOptionalLevel field = .ok level ↔ Level.Chosen field level := by
  cases field with
  | none =>
    constructor
    · rintro ⟨⟩
      exact .absent
    · rintro ⟨⟩
      rfl
  | some text =>
    rw [readOptionalLevel, map_ok_iff]
    constructor
    · rintro ⟨l, read, rfl⟩
      exact .named (readLevel_ok_iff.mp read)
    · rintro ⟨⟩
      next l names => exact ⟨l, readLevel_ok_iff.mpr names, rfl⟩

theorem readOptionalLevel_error_iff {field : Option String} {e : SettingsError} :
    readOptionalLevel field = .error e ↔
      ∃ text, field = some text ∧ e = .invalidLevel text ∧ ∀ l : Level, ¬ l.Names text := by
  cases field with
  | none => simp [readOptionalLevel]
  | some text =>
    have failed : readOptionalLevel (some text) = .error e ↔ readLevel text = .error e := by
      rw [readOptionalLevel]
      cases readLevel text <;> simp [Except.map]
    simp [failed, readLevel_error_iff]

theorem ofDocument_ok_iff {d : Document} {settings : Settings} :
    ofDocument d = .ok settings ↔ d.Grants settings := by
  simp only [ofDocument, bind_ok_iff, readOptionalLevel_ok_iff]
  constructor
  · rintro ⟨global, chosen, build, chosen', lexer, chosen'', ⟨⟩⟩
    exact ⟨⟨global, chosen, rfl⟩, chosen', chosen'', rfl⟩
  · rintro ⟨⟨global, chosen, global_eq⟩, chosen', chosen'', limits_eq⟩
    refine ⟨global, chosen, _, chosen', _, chosen'', ?_⟩
    rw [← global_eq, ← limits_eq]
    rfl

/-- One more level is read before the others. -/
theorem bind_readOptionalLevel_error_iff {α : Type} {field : Option String}
    {texts : List (Option String)} {f : Option Level → Except SettingsError α} {e : SettingsError}
    (others : ∀ level, f level = .error e ↔
      ∃ text, e = .invalidLevel text ∧ Level.FirstInvalid texts text) :
    readOptionalLevel field >>= f = .error e ↔
      ∃ text, e = .invalidLevel text ∧ Level.FirstInvalid (field :: texts) text := by
  simp only [bind_error_iff, readOptionalLevel_error_iff, readOptionalLevel_ok_iff, others]
  constructor
  · rintro (⟨text, rfl, rfl, invalid⟩ | ⟨level, valid, text, rfl, first⟩)
    · exact ⟨text, rfl, .here invalid⟩
    · exact ⟨text, rfl, .later valid first⟩
  · rintro ⟨text, rfl, first⟩
    cases first with
    | here invalid => exact .inl ⟨text, rfl, rfl, invalid⟩
    | later valid first => exact .inr ⟨_, valid, text, rfl, first⟩

theorem ofDocument_error_iff {d : Document} {e : SettingsError} : ofDocument d = .error e ↔
    ∃ text, e = .invalidLevel text ∧ Level.FirstInvalid d.levels.inOrder text := by
  apply bind_readOptionalLevel_error_iff
  intro global
  apply bind_readOptionalLevel_error_iff
  intro build
  apply bind_readOptionalLevel_error_iff
  intro lexer
  constructor
  · rintro ⟨⟩
  · rintro ⟨_, _, ⟨⟩⟩

-- The text gives the level of the lexer first, but that of building is checked first.
example : read "\x7b\"log\":\x7b\"lexer\":\"loud\",\"build\":\"low\"\x7d\x7d" =
    .error (.invalidLevel "low") := by
  decide +kernel

end Settings

end TableLexer
