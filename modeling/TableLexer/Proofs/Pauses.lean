import Mathlib.Data.List.ReduceOption
import TableLexer.LineEndings.Source
import TableLexer.Proofs.Newlines

/-!
# Pauses do not matter to line endings

A source that pauses answers some requests with nothing. Normalizing its answers one
request at a time gives the normalized form of all characters answered so far, and
passes the pauses on one for one. Each request takes one answer of the inner source or
two, the first of which is then the LF of a pair. The memory of a CR is a function of
the characters read so far, pauses left out: this is the invariant of a request.
-/

namespace TableLexer

namespace Source

variable {σ : Type} [Source σ]

/-- The answers to the first `n` requests. -/
def answers : Nat → σ → List (Option Char)
  | 0, _ => []
  | n + 1, s => (next s).1 :: answers n (next s).2

/-- The source after `n` requests. -/
def after : Nat → σ → σ
  | 0, s => s
  | n + 1, s => after n (next s).2

theorem after_add (a b : Nat) (s : σ) : after (a + b) s = after b (after a s) := by
  induction a generalizing s with
  | zero => rw [Nat.zero_add, after]
  | succ a ih => simpa [Nat.succ_add, after] using ih (next s).2

theorem answers_add (a b : Nat) (s : σ) :
    answers (a + b) s = answers a s ++ answers b (after a s) := by
  induction a generalizing s with
  | zero => simp [answers, after]
  | succ a ih => simpa [Nat.succ_add, answers, after] using ih (next s).2

end Source

/-- For each pause, the characters before it, where `seen` come before all answers. -/
def beforePauses (seen : List Char) : List (Option Char) → List (List Char)
  | [] => []
  | none :: answers => seen :: beforePauses seen answers
  | some c :: answers => beforePauses (seen ++ [c]) answers

theorem beforePauses_append (seen : List Char) (answers more : List (Option Char)) :
    beforePauses seen (answers ++ more) =
      beforePauses seen answers ++ beforePauses (seen ++ answers.reduceOption) more := by
  induction answers generalizing seen with
  | nil => simp [beforePauses]
  | cons answer answers ih =>
    cases answer with
    | none => simp [beforePauses, ih]
    | some c => simp [beforePauses, ih]

/-- After `seen`, the answers `given` are what is to be made of the answers `taken`. -/
structure Folds (seen : List Char) (taken given : List (Option Char)) : Prop where
  chars : normalize (seen ++ taken.reduceOption) = normalize seen ++ given.reduceOption
  pauses : beforePauses (normalize seen) given = (beforePauses seen taken).map normalize

namespace Folds

variable {seen : List Char} {taken taken' given given' : List (Option Char)}

theorem nil (seen : List Char) : Folds seen [] [] :=
  ⟨by simp, rfl⟩

theorem append (h : Folds seen taken given)
    (h' : Folds (seen ++ taken.reduceOption) taken' given') :
    Folds seen (taken ++ taken') (given ++ given') := by
  constructor
  · rw [List.reduceOption_append, ← List.append_assoc, h'.chars, h.chars,
      List.reduceOption_append, List.append_assoc]
  · rw [beforePauses_append, beforePauses_append, List.map_append, h.pauses, ← h.chars, h'.pauses]

end Folds

/-- The LF of a pair is dropped. -/
theorem folds_lf {seen : List Char} (hcr : crBefore false seen = true) :
    Folds seen [some '\n'] [] :=
  ⟨by simp [normalize, normalizeFrom_append, hcr, normalizeFrom], rfl⟩

namespace LineEndings

variable {σ : Type}

/-! ## One request -/

/-- What is made of an answer that is not the LF of a pair. -/
def give (afterCr : Bool) : Option Char × σ → Option Char × LineEndings σ
  | (none, inner) => (none, ⟨inner, afterCr⟩)
  | (some c, inner) => emit inner c

/-- The source after the characters `seen`, with `inner` to be asked next. -/
structure Stands (s : LineEndings σ) (seen : List Char) (inner : σ) : Prop where
  inner : s.inner = inner
  afterCr : s.afterCr = crBefore false seen

/-- A source of which nothing has been asked yet. -/
def start (s : σ) : LineEndings σ := { inner := s }

theorem stands_start (s : σ) : (start s).Stands [] s := ⟨rfl, rfl⟩

theorem folds_give {seen : List Char} {b : Bool} (hb : b = crBefore false seen)
    (reply : Option Char × σ) (apart : ¬ (b = true ∧ reply.1 = some '\n')) :
    Folds seen [reply.1] [(give b reply).1] ∧
      (give b reply).2.Stands (seen ++ [reply.1].reduceOption) reply.2 := by
  obtain ⟨answer, inner⟩ := reply
  cases answer with
  | none => exact ⟨⟨by simp [give], rfl⟩, rfl, by simp [give, hb]⟩
  | some c =>
    by_cases hcr : c = '\r'
    · subst hcr
      refine ⟨⟨?_, rfl⟩, rfl, ?_⟩
      · simp [normalize, normalizeFrom_append, give, emit]
      · simp [give, emit, crBefore]
    · have lone : ¬ (c = '\n' ∧ crBefore false seen = true) := by simpa [hb, and_comm] using apart
      refine ⟨⟨?_, ?_⟩, ?_, ?_⟩
      · simp [normalize, normalizeFrom_append, normalizeFrom, give, emit, hcr, lone]
      · simp [give, emit, hcr, beforePauses]
      · simp [give, emit, hcr]
      · simp [give, emit, crBefore, hcr]

variable [Source σ]

instance : Source (LineEndings σ) where
  next := next
  sizeHint := sizeHint

/-- The inner source is about to answer with the LF of a pair. -/
def completes (s : LineEndings σ) : Bool :=
  s.afterCr && (Source.next s.inner).1 = some '\n'

/-- How many answers of the inner source a request takes. -/
def takes (s : LineEndings σ) : Nat := if s.completes then 2 else 1

theorem next_eq_give (s : LineEndings σ) :
    s.next =
      if s.completes then give false (Source.next (Source.next s.inner).2)
      else give s.afterCr (Source.next s.inner) := by
  unfold next completes
  rcases Source.next s.inner with ⟨_ | c, inner⟩
  · simp [give]
  · by_cases pair : c = '\n' ∧ s.afterCr = true
    · obtain ⟨rfl, hcr⟩ := pair
      rcases second : Source.next inner with ⟨_ | d, inner'⟩ <;> simp [hcr, second, give]
    · have apart : ¬ (s.afterCr = true ∧ c = '\n') := fun h => pair h.symm
      simp [pair, apart, give]

/-- A request makes of the answers it takes what is to be made of them. -/
theorem folds_next {s : LineEndings σ} {seen : List Char} {inner : σ} (h : s.Stands seen inner) :
    Folds seen (Source.answers s.takes inner) [s.next.1] ∧
      s.next.2.Stands (seen ++ (Source.answers s.takes inner).reduceOption)
        (Source.after s.takes inner) := by
  obtain ⟨rfl, hcr⟩ := h
  rw [next_eq_give, takes]
  cases pair : s.completes with
  | true =>
    obtain ⟨after, lf⟩ : s.afterCr = true ∧ (Source.next s.inner).1 = some '\n' := by
      simpa [completes] using pair
    have cleared : crBefore false (seen ++ ['\n']) = false := by simp [crBefore]
    obtain ⟨second, stands⟩ := folds_give cleared.symm
      (Source.next (Source.next s.inner).2) (by simp)
    simp only [if_true, Source.answers, Source.after, lf]
    refine ⟨(folds_lf (hcr ▸ after)).append second, ?_⟩
    simpa using stands
  | false =>
    have apart : ¬ (s.afterCr = true ∧ (Source.next s.inner).1 = some '\n') := by
      simpa [completes] using pair
    exact folds_give hcr _ apart

/-! ## Any number of requests -/

/-- How many answers of the inner source `n` requests take. -/
def taken : Nat → LineEndings σ → Nat
  | 0, _ => 0
  | n + 1, s => s.takes + taken n s.next.2

theorem taken_succ (n : Nat) (s : LineEndings σ) :
    taken (n + 1) s = taken n s + (Source.after n s).takes := by
  induction n generalizing s with
  | zero => simp [taken, Source.after]
  | succ n ih =>
    rw [taken, ih, taken, Source.after, Nat.add_assoc]
    rfl

theorem folds_answers {s : LineEndings σ} {seen : List Char} {inner : σ}
    (h : s.Stands seen inner) (n : Nat) :
    Folds seen (Source.answers (taken n s) inner) (Source.answers n s) ∧
      (Source.after n s).Stands (seen ++ (Source.answers (taken n s) inner).reduceOption)
        (Source.after (taken n s) inner) := by
  induction n generalizing s seen inner with
  | zero => exact ⟨.nil seen, by simpa [Source.answers, Source.after, taken] using h⟩
  | succ n ih =>
    obtain ⟨first, stands⟩ := folds_next h
    obtain ⟨later, ends⟩ := ih stands
    rw [taken, Source.answers_add, Source.after_add s.takes, List.reduceOption_append,
      ← List.append_assoc]
    exact ⟨first.append later, ends⟩

/-- What `n` requests have made of the answers of a source. -/
structure Follows (s : σ) (n : Nat) : Prop where
  /-- The next request takes one answer or two. -/
  takes : taken (n + 1) (start s) = taken n (start s) + 1 ∨
    taken (n + 1) (start s) = taken n (start s) + 2
  inner : (Source.after n (start s)).inner = Source.after (taken n (start s)) s
  chars : (Source.answers n (start s)).reduceOption =
    normalize (Source.answers (taken n (start s)) s).reduceOption
  /-- There are as many pauses, each after the normalized form of what came before it. -/
  pauses : beforePauses [] (Source.answers n (start s)) =
    (beforePauses [] (Source.answers (taken n (start s)) s)).map normalize

theorem follows (s : σ) (n : Nat) : Follows s n := by
  obtain ⟨folds, stands⟩ := folds_answers (stands_start s) n
  constructor
  case takes =>
    rw [taken_succ, takes]
    split
    · exact .inr rfl
    · exact .inl rfl
  case inner => exact stands.inner
  case chars => simpa [normalize] using folds.chars.symm
  case pauses => exact folds.pauses

/-- The equation of `drain` in terms of plain requests. -/
theorem drain_eq {σ : Type} [FiniteSource σ] (s : LineEndings σ) :
    s.drain =
      match s.next with
      | (none, rest) => ([], rest)
      | (some c, rest) => (c :: rest.drain.1, rest.drain.2) := by
  rw [drain]
  rcases h : s.next with ⟨_ | c, rest⟩ <;> simp [nextFewer, h]

/-- All answers for a text are its normalized characters. -/
theorem drain_text (b : Bool) (text : List Char) :
    (drain ⟨TextSource.mk text, b⟩).1 = normalizeFrom b text := by
  fun_induction normalizeFrom b text with
  | case1 b =>
    rw [drain_eq]
    rfl
  | case2 b cs ih =>
    rw [drain_eq]
    simp [next, Source.next, TextSource.next, emit, ih]
  | case3 b c cs hcr pair ih =>
    -- the answer is the one that is given without the LF
    obtain ⟨rfl, rfl⟩ := pair
    have same : next ⟨TextSource.mk ('\n' :: cs), true⟩ = next ⟨TextSource.mk cs, false⟩ := by
      rw [next_eq_give, next_eq_give]
      rfl
    rw [drain_eq, same, ← drain_eq, ih]
  | case4 b c cs hcr lone ih =>
    rw [drain_eq]
    simp [next, Source.next, TextSource.next, emit, hcr, lone, ih]

/-- Line endings are normalized the same wherever the source pauses, and wherever a text
is cut in two. -/
theorem pauses_do_not_matter (s : σ) (n : Nat) :
    Follows s n ∧ (∀ text, (start (TextSource.mk text)).drain.1 = normalize text) ∧
      ∀ u v, normalize (u ++ v) = normalize u ++
        normalize (if u.getLast? = some '\r' ∧ v.head? = some '\n' then v.tail else v) := by
  refine ⟨follows s n, drain_text false, fun u v => ?_⟩
  rw [normalize_append]
  simp only [dropLf, ← ite_and]

/-- The two halves of a line end on both sides of a pause. -/
example : Source.answers 4 (start (AnswerSource.mk [some '\r', none, some '\n', some 'a'] 0)) =
    [some '\n', none, some 'a', none] := by
  decide

end LineEndings

end TableLexer
