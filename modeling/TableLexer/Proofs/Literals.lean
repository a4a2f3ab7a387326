import Mathlib.Data.List.Induction
import Mathlib.Data.List.TakeDrop
import TableLexer.Json.NumberLiteral
import TableLexer.Json.StringLiteral

/-!
# The grammar of literals

What a string literal and a natural number look like, said without a reader, and that
the readers take exactly this off the front of a text. A string ends with its quote. A
number ends where nothing follows that it could go on with.
-/

namespace TableLexer.Json

theorem map_ok_iff {ε α β : Type} {f : α → β} {x : Except ε α} {b : β} :
    x.map f = .ok b ↔ ∃ a, x = .ok a ∧ f a = b := by
  cases x <;> simp [Except.map]

theorem bind_ok_iff {ε α β : Type} {x : Except ε α} {f : α → Except ε β} {b : β} :
    x >>= f = .ok b ↔ ∃ a, x = .ok a ∧ f a = .ok b := by
  cases x <;> simp [bind, Except.bind]

theorem bind_error_iff {ε α β : Type} {x : Except ε α} {f : α → Except ε β} {e : ε} :
    x >>= f = .error e ↔ x = .error e ∨ ∃ a, x = .ok a ∧ f a = .error e := by
  cases x <;> simp [bind, Except.bind]

/-! ## Strings -/

/-- Four hexadecimal digits and the number they make. -/
inductive CodeUnit : List Char → Nat → Prop where
  | mk {a b c d : Char} {w x y z : Nat} (ha : hexValue? a = some w) (hb : hexValue? b = some x)
      (hc : hexValue? c = some y) (hd : hexValue? d = some z) :
    CodeUnit [a, b, c, d] (((w * 16 + x) * 16 + y) * 16 + z)

/-- A character by its number: a code unit that is no surrogate, or a pair of
surrogates. -/
inductive Numbered : List Char → Char → Prop where
  | unit {digits : List Char} {n : Nat} (unit : CodeUnit digits n) (first : isTrailing n = false)
      (second : isLeading n = false) : Numbered digits (Char.ofNat n)
  | pair {digits digits' : List Char} {n n' : Nat} (unit : CodeUnit digits n)
      (unit' : CodeUnit digits' n') (first : isLeading n = true) (second : isTrailing n' = true) :
    Numbered (digits ++ '\\' :: 'u' :: digits')
      (Char.ofNat (0x10000 + (n - 0xd800) * 0x400 + (n' - 0xdc00)))

/-- The escapes of one character, each with what it stands for. -/
def shortEscapes : List (Char × Char) :=
  [('"', '"'), ('\\', '\\'), ('/', '/'), ('b', '\x08'), ('f', '\x0c'), ('n', '\n'), ('r', '\r'),
    ('t', '\t')]

/-- What may follow a backslash, and the character that it stands for. -/
inductive Escapes : List Char → Char → Prop where
  | short {e c : Char} (known : (e, c) ∈ shortEscapes) : Escapes [e] c
  | numbered {digits : List Char} {c : Char} (number : Numbered digits c) :
    Escapes ('u' :: digits) c

/-- What stands between the quotes of a literal, and the characters that it spells. -/
inductive Spells : List Char → List Char → Prop where
  | nil : Spells [] []
  | plain {c : Char} {written chars : List Char} (quote : c ≠ '"') (backslash : c ≠ '\\')
      (printed : 0x20 ≤ c.toNat) (rest : Spells written chars) :
    Spells (c :: written) (c :: chars)
  | escape {escape written chars : List Char} {c : Char} (escapes : Escapes escape c)
      (rest : Spells written chars) : Spells ('\\' :: (escape ++ written)) (c :: chars)

theorem readUnit_ok_iff {cs rest : List Char} {n : Nat} :
    readUnit cs = .ok (n, rest) ↔ ∃ digits, cs = digits ++ rest ∧ CodeUnit digits n := by
  constructor
  · intro h
    unfold readUnit at h
    split at h
    · cases h
    · split at h
      · split at h
        · next ha hb hc hd =>
          cases h
          exact ⟨_, rfl, .mk ha hb hc hd⟩
        · cases h
      · cases h
  · rintro ⟨_, rfl, ⟨ha, hb, hc, hd⟩⟩
    rename_i a b c d w x y z
    -- the end of the text is looked for in bytes, and each digit has one at least
    have four : ¬ Text.byteCount (List.take 4 (a :: b :: c :: d :: rest)) < 4 := by
      have least := (Text.byteCount_bounds [a, b, c, d]).1
      simpa using least
    unfold readUnit
    simp only [List.cons_append, List.nil_append, if_neg four, ha, hb, hc, hd]

theorem readPartner_ok_iff {leading : Nat} {cs rest : List Char} {c : Char} :
    readPartner leading cs = .ok (c, rest) ↔
      ∃ digits n, cs = '\\' :: 'u' :: (digits ++ rest) ∧ CodeUnit digits n ∧
        isTrailing n = true ∧
        c = Char.ofNat (0x10000 + (leading - 0xd800) * 0x400 + (n - 0xdc00)) := by
  constructor
  · intro h
    unfold readPartner at h
    split at h
    · cases h
    · cases h
    · split at h
      · cases h
      · next n after hu =>
        obtain ⟨digits, rfl, unit⟩ := readUnit_ok_iff.mp hu
        split at h
        · next trailing =>
          simp only [Except.ok.injEq, Prod.mk.injEq] at h
          obtain ⟨char, rfl⟩ := h
          exact ⟨digits, n, rfl, unit, trailing, char.symm⟩
        · cases h
    · cases h
  · rintro ⟨digits, n, rfl, unit, trailing, char⟩
    rw [readPartner, readUnit_ok_iff.mpr ⟨digits, rfl, unit⟩]
    simp only [trailing, if_true, char]

theorem readNumbered_ok_iff {cs rest : List Char} {c : Char} :
    readNumbered cs = .ok (c, rest) ↔ ∃ digits, cs = digits ++ rest ∧ Numbered digits c := by
  constructor
  · intro h
    unfold readNumbered at h
    split at h
    · cases h
    · next n after hu =>
      obtain ⟨digits, rfl, unit⟩ := readUnit_ok_iff.mp hu
      split at h
      · cases h
      · next trailing =>
        split at h
        · next leading =>
          obtain ⟨digits', n', rfl, unit', trailing', char⟩ := readPartner_ok_iff.mp h
          rw [char]
          exact ⟨_, by simp, .pair unit unit' leading trailing'⟩
        · next leading =>
          cases h
          exact ⟨digits, rfl, .unit unit (by simpa using trailing) (by simpa using leading)⟩
  · rintro ⟨_, rfl, number⟩
    cases number with
    | unit unit trailing leading =>
      rw [readNumbered, readUnit_ok_iff.mpr ⟨_, rfl, unit⟩]
      simp [trailing, leading]
    | @pair digits digits' n n' unit unit' leading trailing' =>
      -- no unit is both halves of a pair
      have trailing : isTrailing n = false := by
        simp only [isLeading, isTrailing, Bool.and_eq_true, decide_eq_true_eq,
          Bool.and_eq_false_iff, decide_eq_false_iff_not] at leading ⊢
        omega
      rw [List.append_assoc, readNumbered, readUnit_ok_iff.mpr ⟨_, rfl, unit⟩]
      simp only [trailing, leading, Bool.false_eq_true, if_false, if_true]
      exact readPartner_ok_iff.mpr ⟨digits', n', rfl, unit', trailing', rfl⟩

theorem readEscape_ok_iff {cs rest : List Char} {c : Char} :
    readEscape cs = .ok (c, rest) ↔ ∃ escape, cs = escape ++ rest ∧ Escapes escape c := by
  constructor
  · intro h
    unfold readEscape at h
    split at h
    · cases h
    · obtain ⟨digits, rfl, number⟩ := readNumbered_ok_iff.mp h
      exact ⟨_, rfl, .numbered number⟩
    · split at h
      all_goals cases h
      all_goals exact ⟨[_], rfl, .short (by decide)⟩
  · rintro ⟨_, rfl, escapes⟩
    cases escapes with
    | short known =>
      simp only [shortEscapes, List.mem_cons, Prod.mk.injEq, List.not_mem_nil, or_false] at known
      obtain ⟨rfl, rfl⟩ | ⟨rfl, rfl⟩ | ⟨rfl, rfl⟩ | ⟨rfl, rfl⟩ | ⟨rfl, rfl⟩ | ⟨rfl, rfl⟩ |
        ⟨rfl, rfl⟩ | ⟨rfl, rfl⟩ := known
      all_goals rfl
    | numbered number => exact readNumbered_ok_iff.mpr ⟨_, rfl, number⟩

theorem readChars_ok_iff {cs chars rest : List Char} :
    readChars cs = .ok (chars, rest) ↔
      ∃ written, cs = written ++ '"' :: rest ∧ Spells written chars := by
  constructor
  · intro h
    fun_induction readChars cs generalizing chars with
    | case1 => cases h
    | case2 after =>
      cases h
      exact ⟨[], rfl, .nil⟩
    | case3 => cases h
    | case4 after c more shorter escaped ih =>
      obtain ⟨escape, rfl, escapes⟩ := readEscape_ok_iff.mp (congrArg Subtype.val escaped)
      obtain ⟨⟨chars', _⟩, read, rfl, rfl⟩ := map_ok_iff.mp h
      obtain ⟨written, rfl, spells⟩ := ih read
      exact ⟨_, by simp, .escape escapes spells⟩
    | case5 => cases h
    | case6 c more quote backslash printed ih =>
      obtain ⟨⟨chars', _⟩, read, rfl, rfl⟩ := map_ok_iff.mp h
      obtain ⟨written, rfl, spells⟩ := ih read
      exact ⟨_, rfl, .plain quote backslash (Nat.le_of_not_lt printed) spells⟩
  · rintro ⟨written, rfl, spells⟩
    induction spells with
    | nil => simp [readChars]
    | @plain c written chars quote backslash printed more ih =>
      rw [List.cons_append, readChars, if_neg (Nat.not_lt.mpr printed), ih]
      · rfl
      · exact quote
      · exact backslash
    | @escape escape written chars c escapes more ih =>
      have escaped : readEscape (escape ++ (written ++ '"' :: rest)) = .ok (c, _) :=
        readEscape_ok_iff.mpr ⟨escape, rfl, escapes⟩
      -- the reader carries along that an escape takes up characters
      have shorter : readEscapeShorter (escape ++ (written ++ '"' :: rest)) =
          ⟨.ok (c, written ++ '"' :: rest), fun _ _ h => readEscape_length (escaped.trans h)⟩ :=
        Subtype.ext escaped
      rw [List.cons_append, List.append_assoc, readChars, shorter]
      simp only [ih]
      rfl

theorem readString_ok_iff {cs rest : List Char} {s : String} :
    readString cs = .ok (s, rest) ↔
      ∃ written, cs = written ++ '"' :: rest ∧ Spells written s.toList := by
  rw [← readChars_ok_iff, readString, map_ok_iff]
  constructor
  · rintro ⟨⟨chars, _⟩, read, rfl, rfl⟩
    simpa using read
  · intro read
    exact ⟨_, read, by simp⟩

/-! ## Numbers -/

/-- The digits of a natural number: no zero stands before other digits. -/
structure Whole (digits : List Char) : Prop where
  nonempty : digits ≠ []
  all : ∀ c ∈ digits, isDigit c = true
  leading : digits.head? = some '0' → digits = ['0']

theorem Whole.exists_cons {digits : List Char} (whole : Whole digits) :
    ∃ d more, digits = d :: more ∧ isDigit d = true := by
  obtain ⟨d, more, rfl⟩ := List.exists_cons_of_ne_nil whole.nonempty
  exact ⟨d, more, rfl, whole.all d List.mem_cons_self⟩

/-- Whether a number that has been read so far goes on with `c`. -/
def Continues (c : Char) : Prop := isDigit c = true ∨ c = '.' ∨ c = 'e' ∨ c = 'E'

instance : DecidablePred Continues := fun _ => inferInstanceAs (Decidable (_ ∨ _))

/-- A number can end before `rest`. -/
def Stops (rest : List Char) : Prop := ∀ c ∈ rest.head?, ¬ Continues c

theorem readDigits_ok {cs digits rest : List Char} (h : readDigits cs = .ok (digits, rest)) :
    cs = digits ++ rest ∧ digits ≠ [] ∧ ∀ c ∈ digits, isDigit c = true := by
  unfold readDigits at h
  split at h
  · cases h
  · next c more =>
    split at h
    · next digit =>
      rw [List.span_eq_takeWhile_dropWhile] at h
      cases h
      refine ⟨List.takeWhile_append_dropWhile.symm, ?_, List.all_eq_true.mp List.all_takeWhile⟩
      simp [digit]
    · cases h

theorem readDigits_append {digits rest : List Char} (some_digit : digits ≠ [])
    (all : ∀ c ∈ digits, isDigit c = true) (ends : ∀ c ∈ rest.head?, isDigit c = false) :
    readDigits (digits ++ rest) = .ok (digits, rest) := by
  obtain ⟨c, more, rfl⟩ := List.exists_cons_of_ne_nil some_digit
  have after : rest.takeWhile isDigit = [] ∧ rest.dropWhile isDigit = rest := by
    cases rest with
    | nil => simp
    | cons d _ => simp [ends d rfl]
  rw [List.cons_append, readDigits, if_pos (all c List.mem_cons_self), ← List.cons_append,
    List.span_eq_takeWhile_dropWhile, List.takeWhile_append_of_pos all,
    List.dropWhile_append_of_pos all, after.1, after.2, List.append_nil]

theorem readWhole_ok {cs digits rest : List Char} (h : readWhole cs = .ok (digits, rest)) :
    cs = digits ++ rest ∧ Whole digits := by
  unfold readWhole at h
  split at h
  · cases h
  · next single =>
    obtain ⟨rfl, some_digit, all⟩ := readDigits_ok h
    refine ⟨rfl, some_digit, all, fun leading => ?_⟩
    cases digits with
    | nil => cases leading
    | cons c more =>
      cases leading
      cases more with
      | nil => rfl
      | cons d more => exact absurd h (single d more rest)

theorem readWhole_append {digits rest : List Char} (whole : Whole digits)
    (ends : ∀ c ∈ rest.head?, isDigit c = false) :
    readWhole (digits ++ rest) = .ok (digits, rest) := by
  rw [readWhole, readDigits_append whole.nonempty whole.all ends]
  split
  · next read =>
    cases read
    have single := whole.leading rfl
    simp at single
  · rfl

theorem readFraction_none {cs rest : List Char} (h : readFraction cs = .ok (none, rest)) :
    cs = rest := by
  unfold readFraction at h
  split at h
  · obtain ⟨_, _, impossible⟩ := map_ok_iff.mp h
    cases impossible
  · cases h
    rfl

theorem readExponent_none {cs rest : List Char} (h : readExponent cs = .ok (none, rest)) :
    cs = rest := by
  unfold readExponent at h
  split at h
  · cases h
    rfl
  · split at h
    · split at h
      all_goals
        obtain ⟨_, _, impossible⟩ := map_ok_iff.mp h
        cases impossible
    · cases h
      rfl

theorem readFraction_of_stops {rest : List Char} (stops : Stops rest) :
    readFraction rest = .ok (none, rest) := by
  unfold readFraction
  split
  · exact absurd (.inr (.inl rfl)) (stops '.' rfl)
  · rfl

theorem readExponent_of_stops {rest : List Char} (stops : Stops rest) :
    readExponent rest = .ok (none, rest) := by
  unfold readExponent
  split
  · rfl
  · next c more =>
    rw [if_neg fun e => stops c rfl (.inr (.inr e))]

/-- A literal without sign, fraction and exponent is its whole part. -/
theorem readLiteral_natural {cs rest : List Char} {l : NumberLiteral}
    (h : readLiteral cs = .ok (l, rest)) (positive : l.negative = false)
    (whole : l.fraction = none) (plain : l.exponent = none) :
    cs = l.whole ++ rest ∧ Whole l.whole := by
  unfold readLiteral at h
  obtain ⟨⟨digits, cs₁⟩, read, h⟩ := bind_ok_iff.mp h
  obtain ⟨⟨fraction, cs₂⟩, read', h⟩ := bind_ok_iff.mp h
  obtain ⟨⟨exponent, cs₃⟩, read'', h⟩ := bind_ok_iff.mp h
  cases h
  subst whole plain
  obtain rfl := readFraction_none read'
  obtain rfl := readExponent_none read''
  split at read
  · cases positive
  · exact readWhole_ok read

/-- A natural number is read off the front with all its digits. -/
theorem readNumber_some {cs rest : List Char} {n : Nat} (h : readNumber cs = .ok (some n, rest)) :
    ∃ digits, cs = digits ++ rest ∧ Whole digits ∧ decimalValue digits = n ∧ n ≤ wordMax := by
  unfold readNumber at h
  split at h
  · cases h
  · next l after literal =>
    split at h
    · next m natural =>
      cases h
      unfold NumberLiteral.natural? at natural
      split at natural
      · cases natural
      · next marks =>
        split at natural
        · next word =>
          cases natural
          simp only [not_or, Bool.not_eq_true, Option.isSome_eq_false_iff,
            Option.isNone_iff_eq_none] at marks
          obtain ⟨written, whole⟩ := readLiteral_natural literal marks.1 marks.2.1 marks.2.2
          exact ⟨l.whole, written, whole, rfl, word⟩
        · cases natural
    · split at h
      all_goals cases h

theorem readNumber_append {digits rest : List Char} (whole : Whole digits)
    (word : decimalValue digits ≤ wordMax) (stops : Stops rest) :
    readNumber (digits ++ rest) = .ok (some (decimalValue digits), rest) := by
  -- what stops the number stops its digits, its fraction and its exponent
  have ends : ∀ c ∈ rest.head?, isDigit c = false := fun c first =>
    Bool.eq_false_iff.mpr fun digit => stops c first (.inl digit)
  have literal : readLiteral (digits ++ rest) = .ok (⟨false, digits, none, none⟩, rest) := by
    unfold readLiteral
    split
    next negative cs sign =>
      split at sign
      · next minus =>
        obtain ⟨d, more, rfl, digit⟩ := whole.exists_cons
        obtain rfl := (List.cons.inj minus).1
        cases digit
      · cases sign
        simp only [readWhole_append whole ends, readFraction_of_stops stops,
          readExponent_of_stops stops, bind, Except.bind, pure, Except.pure]
  rw [readNumber, literal]
  simp [NumberLiteral.natural?, word]

/-! ## The value of digits -/

theorem isDigit_iff {c : Char} : isDigit c = true ↔ 48 ≤ c.toNat ∧ c.toNat ≤ 57 := by
  simp [isDigit, Char.le_def, UInt32.le_iff_toNat_le]

theorem digitValue_eq (d : Char) : digitValue d = d.toNat - 48 := rfl

theorem isDigit_digitChar {n : Nat} (small : n < 10) : isDigit n.digitChar = true := by
  rw [isDigit_iff, Nat.toNat_digitChar_of_lt_ten small]
  omega

theorem digitValue_digitChar {n : Nat} (small : n < 10) : digitValue n.digitChar = n := by
  rw [digitValue_eq, Nat.toNat_digitChar_of_lt_ten small]
  omega

theorem eq_digitChar {d : Char} (digit : isDigit d = true) : d = (digitValue d).digitChar := by
  obtain ⟨low, high⟩ := isDigit_iff.mp digit
  have small : digitValue d < 10 := by
    rw [digitValue_eq]
    omega
  apply Char.toNat_inj.mp
  rw [Nat.toNat_digitChar_of_lt_ten small, digitValue_eq]
  omega

theorem decimalValue_concat (digits : List Char) (d : Char) :
    decimalValue (digits ++ [d]) = decimalValue digits * 10 + digitValue d := by
  simp [decimalValue]

theorem decimalValue_zeros (zeros : Nat) : decimalValue (List.replicate zeros '0') = 0 := by
  induction zeros with
  | zero => rfl
  | succ zeros ih =>
    rw [List.replicate_succ', decimalValue_concat, ih]
    rfl

theorem eq_zeros {digits : List Char} (all : ∀ d ∈ digits, isDigit d = true)
    (value : decimalValue digits = 0) : digits = List.replicate digits.length '0' := by
  induction digits using List.reverseRecOn with
  | nil => rfl
  | append_singleton digits d ih =>
    rw [decimalValue_concat] at value
    have last : d = '0' := by
      rw [eq_digitChar (all d (by simp)), show digitValue d = 0 by omega]
      rfl
    rw [List.length_append, List.length_singleton, List.replicate_succ', last,
      ← ih (fun c member => all c (List.mem_append_left _ member)) (by omega)]

/-- A number of one digit other than zero is that digit, with any zeros before it. -/
theorem decimalValue_eq_iff {digits : List Char} {n : Nat} (positive : 0 < n) (small : n < 10) :
    (∀ d ∈ digits, isDigit d = true) ∧ decimalValue digits = n ↔
      ∃ zeros, digits = List.replicate zeros '0' ++ [n.digitChar] := by
  constructor
  · rintro ⟨all, value⟩
    rcases List.eq_nil_or_concat digits with rfl | ⟨earlier, d, rfl⟩
    · cases value
      cases positive
    · rw [List.concat_eq_append] at all value ⊢
      rw [decimalValue_concat] at value
      have zeros := eq_zeros (fun c member => all c (List.mem_append_left _ member))
        (show decimalValue earlier = 0 by omega)
      have last := eq_digitChar (all d (by simp))
      rw [show digitValue d = n by omega] at last
      exact ⟨earlier.length, by rw [last, ← zeros]⟩
  · rintro ⟨zeros, rfl⟩
    constructor
    · intro d member
      rcases List.mem_append.mp member with zero | last
      · rw [List.eq_of_mem_replicate zero]
        rfl
      · rw [List.mem_singleton.mp last]
        exact isDigit_digitChar small
    · rw [decimalValue_concat, decimalValue_zeros, digitValue_digitChar small, Nat.zero_mul,
        Nat.zero_add]

end TableLexer.Json
