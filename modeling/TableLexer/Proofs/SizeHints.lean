import TableLexer.Proofs.Pauses

/-!
# How many characters are still to come

A source estimates the characters it has left. Normalizing drops the LF of every pair,
so of what is left at most every second character is lost, and one more if a CR has just
been read. The estimate for the normalized source is the one that follows from this. It
holds wherever the source holds to its own estimate, and its lower bound is attained: a
text made of nothing but pairs loses as many characters as can be lost.
-/

namespace TableLexer

/-- The count is within the bounds, where the upper one may be unknown. -/
structure Fits (hint : Nat × Option Nat) (count : Nat) : Prop where
  lower : hint.1 ≤ count
  upper : ∀ bound, hint.2 = some bound → count ≤ bound

namespace Source

variable {σ : Type} [Source σ]

/-- The source has exactly the characters of `text` left, with any pauses between them. -/
structure Holds (s : σ) (text : List Char) : Prop where
  begins : ∀ n, (answers n s).reduceOption <+: text
  all : ∃ n, (answers n s).reduceOption = text

/-- Whatever has been asked of the source, its estimate is right. -/
def Honest (s : σ) : Prop :=
  ∀ n left, Holds (after n s) left → Fits (sizeHint (after n s)) left.length

theorem answers_prefix (s : σ) {m n : Nat} (h : m ≤ n) :
    (answers m s).reduceOption <+: (answers n s).reduceOption := by
  obtain ⟨k, rfl⟩ := Nat.exists_eq_add_of_le h
  rw [answers_add, List.reduceOption_append]
  exact List.prefix_append _ _

/-- Once all characters have been answered, no more come. -/
theorem Holds.eq_of_le {s : σ} {text : List Char} (h : Holds s text) {m n : Nat}
    (all : (answers m s).reduceOption = text) (hle : m ≤ n) :
    (answers n s).reduceOption = text := by
  have grown := answers_prefix s hle
  rw [all] at grown
  exact (h.begins n).eq_of_length_le grown.length_le

/-- What has been answered is gone, and the rest is left. -/
theorem Holds.after {s : σ} {text : List Char} (h : Holds s text) (n : Nat) :
    ∃ left, text = (answers n s).reduceOption ++ left ∧ Holds (after n s) left := by
  obtain ⟨left, rfl⟩ := h.begins n
  refine ⟨left, rfl, fun k => ?_, ?_⟩
  · have begins := h.begins (n + k)
    rw [answers_add, List.reduceOption_append] at begins
    exact (List.prefix_append_right_inj _).mp begins
  · obtain ⟨k, all⟩ := h.all
    have later := h.eq_of_le all (Nat.le_add_left k n)
    rw [answers_add, List.reduceOption_append] at later
    exact ⟨k, List.append_cancel_left later⟩

theorem Holds.unique {s : σ} {text text' : List Char} (h : Holds s text) (h' : Holds s text') :
    text = text' := by
  obtain ⟨n, all⟩ := h.all
  obtain ⟨n', all'⟩ := h'.all
  have begins := h'.begins n
  have begins' := h.begins n'
  rw [all] at begins
  rw [all'] at begins'
  exact begins.eq_of_length_le begins'.length_le

/-- A source that goes through a list of characters holds that list. -/
theorem holds_of_steps {left : σ → List Char}
    (step : ∀ s, (next s).1 = (left s).head? ∧ left (next s).2 = (left s).tail) (s : σ) :
    Holds s (left s) := by
  have taken (n : Nat) (s : σ) : (answers n s).reduceOption = (left s).take n := by
    induction n generalizing s with
    | zero => simp [answers]
    | succ n ih =>
      obtain ⟨head, tail⟩ := step s
      rw [answers, head]
      cases chars : left s with
      | nil => simp [ih, tail, chars]
      | cons c cs => simp [ih, tail, chars]
  exact ⟨fun n => taken n s ▸ List.take_prefix n _, _, (taken _ s).trans List.take_length⟩

end Source

theorem ListSource.holds (text : List Char) : Source.Holds (ListSource.mk text) text := by
  refine @Source.holds_of_steps _ _ ListSource.left ?_ _
  rintro ⟨_ | ⟨c, cs⟩⟩ <;> exact ⟨rfl, rfl⟩

theorem TextSource.holds (text : List Char) : Source.Holds (TextSource.mk text) text := by
  refine @Source.holds_of_steps _ _ TextSource.left ?_ _
  rintro ⟨_ | ⟨c, cs⟩⟩ <;> exact ⟨rfl, rfl⟩

/-- Characters are counted by the bytes they take, at least one and at most four. -/
theorem TextSource.honest (s : TextSource) : Source.Honest s := by
  intro n left holds
  generalize Source.after n s = s' at holds ⊢
  obtain rfl := holds.unique (TextSource.holds s'.left)
  obtain ⟨least, most⟩ := Text.byteCount_bounds s'.left
  constructor
  · simp only [Source.sizeHint]
    omega
  · rintro _ ⟨⟩
    exact least

/-! ## What is lost -/

/-- Each character that is lost comes right after one that is not, but for an LF that
belongs to the CR before the text. -/
theorem length_le_normalizeFrom (b : Bool) (text : List Char) :
    text.length ≤ 2 * (normalizeFrom b text).length + b.toNat := by
  fun_induction normalizeFrom b text with
  | case1 b => simp
  | case2 b cs ih =>
    simp only [List.length_cons, Bool.toNat_true] at ih ⊢
    omega
  | case3 b c cs hcr pair ih =>
    simp only [List.length_cons, pair.2, Bool.toNat_false, Bool.toNat_true] at ih ⊢
    omega
  | case4 b c cs hcr lone ih =>
    simp only [List.length_cons, Bool.toNat_false] at ih ⊢
    omega

theorem normalizeFrom_length_le (b : Bool) (text : List Char) :
    (normalizeFrom b text).length ≤ text.length := by
  fun_induction normalizeFrom b text with
  | case1 b => simp
  | case2 b cs ih => simpa using ih
  | case3 b c cs hcr pair ih => exact Nat.le_succ_of_le ih
  | case4 b c cs hcr lone ih => simpa using ih

/-- Nothing but pairs, the first one cut in two if a CR comes before. -/
def pairs : Bool → Nat → List Char
  | _, 0 => []
  | false, n + 1 => '\r' :: pairs true n
  | true, n + 1 => '\n' :: pairs false n

@[simp] theorem length_pairs (b : Bool) (n : Nat) : (pairs b n).length = n := by
  induction n generalizing b with
  | zero => rfl
  | succ n ih => cases b <;> simp [pairs, ih]

/-- Of pairs every second character is lost. -/
theorem length_normalizeFrom_pairs (b : Bool) (n : Nat) :
    (normalizeFrom b (pairs b n)).length = (n - b.toNat + 1) / 2 := by
  induction n generalizing b with
  | zero => cases b <;> simp [pairs]
  | succ n ih =>
    cases b with
    | false =>
      simp only [pairs, normalizeFrom_cr, List.length_cons, ih, Bool.toNat_true, Bool.toNat_false]
      omega
    | true =>
      simp only [pairs, normalizeFrom_true, dropLf, List.head?_cons, if_true, List.tail_cons]
      simpa [normalize] using ih false

namespace LineEndings

variable {σ : Type} [Source σ]

/-- The lower bound is half of what may be left, rounded up. -/
theorem sizeHint_eq (s : LineEndings σ) :
    s.sizeHint = (((Source.sizeHint s.inner).1 - s.afterCr.toNat + 1) / 2,
      (Source.sizeHint s.inner).2) := by
  unfold sizeHint
  cases s.afterCr
  · simp only [Bool.false_eq_true, if_false, Bool.toNat_false, Prod.mk.injEq, and_true]
    omega
  · simp only [if_true, Bool.toNat_true, Prod.mk.injEq, and_true]
    omega

omit [Source σ] in
/-- All that matters of what has been read is a CR at its end. -/
theorem stands_memory (s : LineEndings σ) :
    s.Stands (if s.afterCr then ['\r'] else []) s.inner :=
  ⟨rfl, by cases s.afterCr <;> rfl⟩

/-- The answers so far are the normalized form of the answers taken for them. -/
theorem reduceOption_answers (s : LineEndings σ) (n : Nat) :
    (Source.answers n s).reduceOption =
      normalizeFrom s.afterCr (Source.answers (taken n s) s.inner).reduceOption := by
  have chars := (folds_answers s.stands_memory n).1.chars
  rw [normalize, normalizeFrom_append, ← s.stands_memory.afterCr] at chars
  exact (List.append_cancel_left chars).symm

theorem le_taken (n : Nat) (s : LineEndings σ) : n ≤ taken n s := by
  induction n with
  | zero => exact Nat.zero_le _
  | succ n ih =>
    have one : 1 ≤ (Source.after n s).takes := by
      unfold takes
      split <;> omega
    rw [taken_succ]
    omega

/-- What is left is the normalized form of what the inner source has left. -/
theorem holds {s : LineEndings σ} {text : List Char} (h : Source.Holds s.inner text) :
    Source.Holds s (normalizeFrom s.afterCr text) := by
  constructor
  · intro n
    obtain ⟨rest, whole⟩ := h.begins (taken n s)
    rw [reduceOption_answers, ← whole, normalizeFrom_append]
    exact List.prefix_append _ _
  · obtain ⟨n, all⟩ := h.all
    exact ⟨n, by rw [reduceOption_answers, h.eq_of_le all (le_taken n s)]⟩

/-- The estimate is right if that of the inner source is. -/
theorem fits_sizeHint {s : LineEndings σ} {left : List Char}
    (h : Fits (Source.sizeHint s.inner) left.length) :
    Fits s.sizeHint (normalizeFrom s.afterCr left).length := by
  have lost := length_le_normalizeFrom s.afterCr left
  have kept := normalizeFrom_length_le s.afterCr left
  rw [sizeHint_eq]
  constructor
  · have lower := h.lower
    dsimp only
    omega
  · intro bound known
    exact Nat.le_trans kept (h.upper bound known)

/-- What has been asked of a list may leave any content, after a CR or not. -/
theorem exists_after_eq (content : List Char) (b : Bool) :
    ∃ text n, Source.after n (start (ListSource.mk text)) = ⟨ListSource.mk content, b⟩ := by
  cases b with
  | false => exact ⟨content, 0, rfl⟩
  | true => exact ⟨'\r' :: content, 1, rfl⟩

/-- A lower bound, reckoned from the length of a list and the memory of a CR, that no
list refutes. -/
def Bounds (bound : Nat → Bool → Nat) : Prop :=
  ∀ text n left, Source.Holds (Source.after n (start (ListSource.mk text))) left →
    bound (Source.after n (start (ListSource.mk text))).inner.left.length
      (Source.after n (start (ListSource.mk text))).afterCr ≤ left.length

/-- Where the inner source estimates its characters rightly, so does the normalized one
after any number of requests. Its lower bound is attained by some content of each length,
after a CR or not, and so no better one is right. -/
theorem size_hint_is_right_and_best (s : σ) (text : List Char) (holds : Source.Holds s text)
    (honest : Source.Honest s) (n : Nat) :
    ((∃ left, Source.Holds (Source.after n (start s)) left) ∧
      ∀ left, Source.Holds (Source.after n (start s)) left →
        Fits (Source.after n (start s)).sizeHint left.length) ∧
    (∀ (r : Nat) (b : Bool), ∃ content : List Char, content.length = r ∧
      ∀ {ρ : Type} [Source ρ] (inner : ρ), Source.Holds inner content →
        (Source.sizeHint inner).1 = r →
        ∃ left, Source.Holds (⟨inner, b⟩ : LineEndings ρ) left ∧
          left.length = (⟨inner, b⟩ : LineEndings ρ).sizeHint.1) ∧
    ∀ bound, Bounds bound → ∀ (content : List Char) (b : Bool),
      bound content.length b ≤
        (⟨ListSource.mk content, b⟩ : LineEndings ListSource).sizeHint.1 := by
  refine ⟨?_, ?_, ?_⟩
  · have inner := (folds_answers (stands_start s) n).2.inner
    obtain ⟨left, -, rest⟩ := holds.after (taken n (start s))
    have fits := honest _ left rest
    rw [← inner] at rest fits
    have still := LineEndings.holds rest
    refine ⟨⟨_, still⟩, fun left' also => ?_⟩
    obtain rfl := still.unique also
    exact fits_sizeHint fits
  · intro r b
    refine ⟨pairs b r, length_pairs b r, fun inner rest known => ?_⟩
    refine ⟨_, LineEndings.holds (s := ⟨inner, b⟩) rest, ?_⟩
    rw [sizeHint_eq, length_normalizeFrom_pairs, known]
  · intro bound bounds content b
    obtain ⟨text, n, reached⟩ := exists_after_eq (pairs b content.length) b
    have least := bounds text n
    rw [reached] at least
    have few := least _ (LineEndings.holds (s := ⟨_, b⟩) (ListSource.holds _))
    rw [length_normalizeFrom_pairs, length_pairs] at few
    rw [sizeHint_eq]
    exact few

/-- After a letter and the CR of the first of three pairs, the estimate is of one to six
characters, and three of them come. -/
theorem size_hint_is_right_and_best_lines :
    ∃ text : List Char, Source.Holds (TextSource.mk text) text ∧
      Source.Honest (TextSource.mk text) ∧
      (Source.after 2 (start (TextSource.mk text))).sizeHint = (1, some 6) ∧
      Source.Holds (Source.after 2 (start (TextSource.mk text))) ['\n', '\n', 'b'] ∧
      Fits (1, some 6) ['\n', '\n', 'b'].length := by
  have text := TextSource.holds ['a', '\r', '\n', '\r', '\n', '\r', '\n', 'b']
  have honest := TextSource.honest ⟨['a', '\r', '\n', '\r', '\n', '\r', '\n', 'b']⟩
  obtain ⟨⟨-, fits⟩, -⟩ := size_hint_is_right_and_best _ _ text honest 2
  have left := LineEndings.holds (s := ⟨_, true⟩)
    (TextSource.holds ['\n', '\r', '\n', '\r', '\n', 'b'])
  exact ⟨_, text, honest, by decide, left, fits _ left⟩

end LineEndings

end TableLexer
