import TableLexer.Proofs.Documents

/-!
# Limits that are written and read back

The text of some limits is that of a value in the grammar (`Limits.written_json`), and
this value stands for the limits (`Limits.ofValue?_value`). What is read from the text then
follows from the languages of the two readers: on its own it is read as the limits, and as
the only member of an object, with any blanks between the tokens, as settings.
-/

namespace TableLexer

namespace Json

/-! ## The digits of a number -/

theorem decimalValue_toDigits (n : Nat) : decimalValue (Nat.toDigits 10 n) = n := by
  have same : decimalValue (Nat.toDigits 10 n) = Nat.ofDigitChars 10 (Nat.toDigits 10 n) 0 := by
    rw [Nat.ofDigitChars_eq_foldl, decimalValue]
    simp only [Nat.mul_comm, digitValue]
  rw [same, Nat.ofDigitChars_ten_toDigits]

theorem isDigit_of_mem_toDigits {n : Nat} {c : Char} (member : c ∈ Nat.toDigits 10 n) :
    isDigit c = true := by
  have digit := Nat.isDigit_of_mem_toDigits (by decide) (by decide) member
  simpa [isDigit, Char.isDigit, Char.le_def] using digit

/-- Only the number zero begins with a zero. -/
theorem toDigits_eq_zero_of_head {n : Nat} (leading : (Nat.toDigits 10 n).head? = some '0') :
    Nat.toDigits 10 n = ['0'] := by
  induction n using Nat.strongRecOn with
  | ind n ih =>
    by_cases small : n < 10
    · rw [Nat.toDigits_of_lt_base small] at leading ⊢
      simpa using leading
    · rw [Nat.toDigits_of_base_le (by decide) (Nat.le_of_not_lt small),
        List.head?_append_of_ne_nil _ Nat.toDigits_ne_nil] at leading
      -- the number without its last digit would be zero
      have value := decimalValue_toDigits (n / 10)
      rw [ih (n / 10) (by omega) leading, show decimalValue ['0'] = 0 from rfl] at value
      omega

theorem whole_toDigits (n : Nat) : Whole (Nat.toDigits 10 n) where
  nonempty := Nat.toDigits_ne_nil
  all _ := isDigit_of_mem_toDigits
  leading := toDigits_eq_zero_of_head

theorem written_repr (n : Nat) : Written (.number n) n.repr.toList := by
  have written := Written.number (whole_toDigits n)
  rwa [decimalValue_toDigits, ← Nat.toList_repr] at written

/-! ## Objects with one key -/

/-- Characters that need no escape spell themselves. -/
theorem spells_self {chars : List Char}
    (plain : ∀ c ∈ chars, c ≠ '"' ∧ c ≠ '\\' ∧ 0x20 ≤ c.toNat) : Spells chars chars := by
  induction chars with
  | nil => exact .nil
  | cons c chars ih =>
    obtain ⟨quote, backslash, printed⟩ := plain c List.mem_cons_self
    have rest : Spells chars chars := ih fun d member => plain d (List.mem_cons_of_mem _ member)
    exact .plain quote backslash printed rest

/-- The text is `cs` with blanks around it. -/
def Padded (cs text : List Char) : Prop :=
  ∃ before after, Blank before ∧ Blank after ∧ text = before ++ (cs ++ after)

theorem Padded.refl (cs : List Char) : Padded cs cs := ⟨[], [], .nil, .nil, by simp⟩

/-- The text is an object that has only the given key, spelled in any way, and the text
`value` for its value. Blanks may stand around every token. -/
def Wraps (key value text : String) : Prop :=
  ∃ literal name content, Spells literal key.toList ∧ Padded ('"' :: (literal ++ ['"'])) name ∧
    Padded value.toList content ∧
    Padded ('\x7b' :: (name ++ ':' :: (content ++ ['\x7d']))) text.toList

theorem Written.denotes {v : Value} {text : String} (written : Written v text.toList) :
    Denotes text v :=
  ⟨[], text.toList, [], .nil, written, .nil, by simp⟩

theorem written_object_single {key : String} {v : Value} {literal name value content : List Char}
    (spells : Spells literal key.toList) (named : Padded ('"' :: (literal ++ ['"'])) name)
    (written : Written v value) (padded : Padded value content) :
    Written (.object [(key, v)]) ('\x7b' :: (name ++ ':' :: (content ++ ['\x7d']))) := by
  obtain ⟨opening, before, blank₁, blank₂, rfl⟩ := named
  obtain ⟨after, closing, blank₃, blank₄, rfl⟩ := padded
  have member := Member.mk spells blank₂ blank₃ written
  have items : Items (Member Written) true [(key, v)] _ := .cons blank₁ member (.nil blank₄)
  simpa using Written.object items

theorem Wraps.denotes {key value text : String} {v : Value} (wraps : Wraps key value text)
    (written : Written v value.toList) : Denotes text (.object [(key, v)]) := by
  obtain ⟨literal, name, content, spells, named, padded, before, after, blank, blank', split⟩ :=
    wraps
  exact ⟨before, _, after, blank, written_object_single spells named written padded, blank', split⟩

/-- An object with one known key fills the slot of that key alone. -/
theorem Value.record?_single {ρ : Type} {before after : List (Slot ρ)} {slot : Slot ρ}
    (layout : Layout (before ++ slot :: after)) (r : ρ) (v : Value) :
    Value.record? (before ++ slot :: after) r (.object [(slot.key, v)]) =
      (slot.decode v).map (slot.put r) := by
  have keyed : Keyed ((before ++ slot :: after).map Slot.key) [(slot.key, v)] := by simp [Keyed]
  rw [Value.record?, Value.entries?_object.mpr ⟨keyed, rfl⟩, Option.bind_some,
    fillAll?_insert layout]
  simp only [fillAll?_nil, Option.map_eq_bind, Function.comp_def]

end Json

open Json

/-! ## Limits -/

namespace Limits

/-- The value that the limits are written as. -/
def value (l : Limits) : Json.Value := .object [(key, .number l.maxHops.toNat)]

theorem toList_json (l : Limits) :
    l.json.toList = '\x7b' :: ('"' :: (key.toList ++ ['"']) ++
      ':' :: (l.maxHops.toNat.repr.toList ++ ['\x7d'])) := by
  simp [json]

theorem written_json (l : Limits) : Written l.value l.json.toList := by
  have spells : Spells key.toList key.toList := spells_self (by simp [key])
  rw [toList_json]
  exact written_object_single spells (.refl _) (written_repr _) (.refl _)

theorem not_blank_of_mem_json {l : Limits} {c : Char} (member : c ∈ l.json.toList) :
    isBlank c = false := by
  have plain : ∀ c ∈ key.toList, isBlank c = false := by simp [key, isBlank]
  simp only [toList_json, List.mem_cons, List.mem_append, List.not_mem_nil, or_false,
    Nat.toList_repr] at member
  obtain rfl | (rfl | named | rfl) | rfl | digit | rfl := member
  · rfl
  · rfl
  · exact plain c named
  · rfl
  · rfl
  · exact isBlank_of_isDigit (isDigit_of_mem_toDigits digit)
  · rfl

theorem ofValue?_value (l : Limits) : ofValue? l.value = some l := by
  have word : l.maxHops.toNat ≤ wordMax := Nat.le_sub_one_of_lt l.maxHops.toNat_lt_size
  calc ofValue? l.value
    _ = (Json.Value.word? (.number l.maxHops.toNat)).map fun n => { maxHops := n } :=
      @Json.Value.record?_single _ [] [] _ layout {} _
    _ = some l := by simp [Json.Value.word?, word]

theorem read_json (l : Limits) : read l.json = .ok l :=
  reads.readAll_ok_iff.mpr ⟨l.value, l.written_json.denotes, l.ofValue?_value⟩

end Limits

/-- A document that gives only limits leaves all levels to their defaults. -/
theorem Settings.read_wrapped {l : Limits} {text : String} (wraps : Wraps "limits" l.json text) :
    Settings.read text = .ok { levels := {}, limits := l } := by
  have document : Document.ofValue? (.object [("limits", l.value)]) = some { limits := l } := by
    calc Document.ofValue? (.object [("limits", l.value)])
      _ = (Limits.ofValue? l.value).map fun limits => { limits } :=
        @Json.Value.record?_single _ [_] [] _ Document.layout {} _
      _ = some { limits := l } := by rw [l.ofValue?_value, Option.map_some]
  have written : Document.read text = .ok { limits := l } :=
    Document.read_ok_iff.mpr ⟨_, wraps.denotes l.written_json, document⟩
  rw [Settings.read, written]
  rfl

namespace Limits

/-- Limits are written as compact JSON and read back unchanged, on their own and from a
settings document that gives nothing else, whose levels are then the default ones. No text
that is written for other limits is read as these. -/
theorem json_is_read_back (l : Limits) :
    (Written l.value l.json.toList ∧ ∀ c ∈ l.json.toList, isBlank c = false) ∧
    read l.json = .ok l ∧
    (∀ text, Wraps "limits" l.json text →
      Settings.read text = .ok { levels := {}, limits := l }) ∧
    ∀ l' : Limits, l' ≠ l → l'.json ≠ l.json ∧ read l'.json ≠ .ok l ∧
      ∀ text levels, Wraps "limits" l'.json text → Settings.read text ≠ .ok ⟨levels, l⟩ := by
  refine ⟨⟨l.written_json, fun _ => not_blank_of_mem_json⟩, l.read_json,
    fun _ => Settings.read_wrapped, fun l' other => ⟨?_, ?_, ?_⟩⟩
  · intro same
    have read := l'.read_json
    rw [same, l.read_json] at read
    exact other (Except.ok.inj read).symm
  · rw [l'.read_json]
    exact fun same => other (Except.ok.inj same)
  · intro text levels wraps
    rw [Settings.read_wrapped wraps]
    exact fun same => other (congrArg Settings.limits (Except.ok.inj same))

theorem json_is_read_back_greatest :
    (Wraps "limits" (json ⟨18446744073709551615⟩)
        " \x7b\"limits\" :\n\x7b\"max_zero_width_hops\":18446744073709551615\x7d\t\x7d" ∧
      Settings.read
          " \x7b\"limits\" :\n\x7b\"max_zero_width_hops\":18446744073709551615\x7d\t\x7d" =
        .ok { levels := {}, limits := ⟨18446744073709551615⟩ }) ∧
    ((⟨1844674407370955161⟩ : Limits) ≠ ⟨18446744073709551615⟩ ∧
      read (json ⟨1844674407370955161⟩) ≠ .ok ⟨18446744073709551615⟩) := by
  obtain ⟨-, -, wrapped, others⟩ := json_is_read_back ⟨18446744073709551615⟩
  have wraps : Wraps "limits" (json ⟨18446744073709551615⟩)
      " \x7b\"limits\" :\n\x7b\"max_zero_width_hops\":18446744073709551615\x7d\t\x7d" :=
    ⟨"limits".toList, _, _, spells_self (by simp),
      ⟨[], [' '], by decide, by decide, rfl⟩, ⟨['\n'], ['\t'], by decide, by decide, rfl⟩,
      ⟨[' '], [], by decide, by decide, by decide +kernel⟩⟩
  have other : (⟨1844674407370955161⟩ : Limits) ≠ ⟨18446744073709551615⟩ := by decide
  exact ⟨⟨wraps, wrapped _ wraps⟩, other, (others _ other).2.1⟩

-- One more is past the greatest word.
example : read "\x7b\"max_zero_width_hops\":18446744073709551616\x7d" = .error .unsuitable := by
  decide +kernel

end Limits

end TableLexer
