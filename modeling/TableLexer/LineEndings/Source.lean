import TableLexer.LineEndings
import TableLexer.Text.Bytes
import TableLexer.Text.Outline

/-!
# Normalizing a supply of characters

A source answers each request with a character or with nothing, and may answer
with a character again after that. `LineEndings` normalizes the answers of any
source one request at a time; the memory of a CR outlasts an empty answer.
-/

namespace TableLexer

class Source (σ : Type) where
  /-- The next answer, and the source after it. -/
  next : σ → Option Char × σ
  /-- Bounds on the number of characters left; the upper one may be unknown. -/
  sizeHint : σ → Nat × Option Nat

/-- A source that cannot give characters forever without an empty answer. -/
class FiniteSource (σ : Type) extends Source σ where
  remaining : σ → Nat
  remaining_lt : ∀ {s s' : σ} {c : Char}, next s = (some c, s') → remaining s' < remaining s

/-- The characters of a text, sized by the bytes of its UTF-8 form. -/
structure TextSource where
  left : List Char

namespace TextSource

def next : TextSource → Option Char × TextSource
  | ⟨[]⟩ => (none, ⟨[]⟩)
  | ⟨c :: cs⟩ => (some c, ⟨cs⟩)

instance : FiniteSource TextSource where
  next := next
  sizeHint s := ((Text.byteCount s.left + 3) / 4, some (Text.byteCount s.left))
  remaining s := s.left.length
  remaining_lt {s _ _} h := by
    obtain ⟨_ | ⟨_, _⟩⟩ := s <;> simp [next] at h
    obtain ⟨-, rfl⟩ := h
    simp

instance : Described TextSource := ⟨fun s => .tuple "Chars" [outline s.left]⟩

end TextSource

/-- A list of characters, whose length is known. -/
structure ListSource where
  left : List Char

namespace ListSource

def next : ListSource → Option Char × ListSource
  | ⟨[]⟩ => (none, ⟨[]⟩)
  | ⟨c :: cs⟩ => (some c, ⟨cs⟩)

instance : FiniteSource ListSource where
  next := next
  sizeHint s := (s.left.length, some s.left.length)
  remaining s := s.left.length
  remaining_lt {s _ _} h := by
    obtain ⟨_ | ⟨_, _⟩⟩ := s <;> simp [next] at h
    obtain ⟨-, rfl⟩ := h
    simp

instance : Described ListSource := ⟨fun s => .tuple "IntoIter" [outline s.left]⟩

end ListSource

/-- A source that gives the listed answers one after the other, pauses included,
and nothing once they are used up. It counts the requests. -/
structure AnswerSource where
  answers : List (Option Char)
  asked : Nat := 0

namespace AnswerSource

instance : FiniteSource AnswerSource where
  next s := ((s.answers[s.asked]?).join, { s with asked := s.asked + 1 })
  sizeHint _ := (0, none)
  remaining s := s.answers.length - s.asked
  remaining_lt {s _ _} h := by
    simp only [Prod.mk.injEq] at h
    obtain ⟨h, rfl⟩ := h
    have : s.asked < s.answers.length := by
      refine Nat.lt_of_not_le fun hle => ?_
      simp [List.getElem?_eq_none hle] at h
    simp only
    omega

instance : Described AnswerSource :=
  ⟨fun s => .record "Items" [("items", outline s.answers), ("at", outline s.asked)]⟩

end AnswerSource

/-- A source with its line endings folded. -/
structure LineEndings (σ : Type) where
  inner : σ
  afterCr : Bool := false

namespace LineEndings

variable {σ : Type} [Source σ]

/-- What a character becomes that does not belong to the CR before it. -/
def emit (inner : σ) (c : Char) : Option Char × LineEndings σ :=
  if c = '\r' then (some '\n', ⟨inner, true⟩) else (some c, ⟨inner, false⟩)

/-- One or two answers of the inner source are used for an answer: an LF that
completes a CR is dropped and the next answer is taken in its place. -/
def next (s : LineEndings σ) : Option Char × LineEndings σ :=
  match Source.next s.inner with
  | (none, inner) => (none, ⟨inner, s.afterCr⟩)
  | (some c, inner) =>
    if c = '\n' ∧ s.afterCr then
      match Source.next inner with
      | (none, inner) => (none, ⟨inner, false⟩)
      | (some c, inner) => emit inner c
    else emit inner c

/-- A CR may be waiting for an LF, and of what is left every second character may
be an LF that completes a CR. -/
def sizeHint (s : LineEndings σ) : Nat × Option Nat :=
  let hint := Source.sizeHint s.inner
  let lower := if s.afterCr then hint.1 - 1 else hint.1
  (lower / 2 + lower % 2, hint.2)

theorem remaining_next_lt {σ : Type} [FiniteSource σ] {s s' : LineEndings σ} {c : Char}
    (h : s.next = (some c, s')) :
    FiniteSource.remaining s'.inner < FiniteSource.remaining s.inner := by
  have inner_emit (i : σ) (d : Char) (h : emit i d = (some c, s')) : s'.inner = i := by
    unfold emit at h
    split at h <;> (simp only [Prod.mk.injEq] at h; rw [← h.2])
  unfold next at h
  split at h
  · simp at h
  · next d i hd =>
    have first := FiniteSource.remaining_lt hd
    split at h
    · split at h
      · simp at h
      · next e k he =>
        have second := FiniteSource.remaining_lt he
        rw [inner_emit k e h]
        omega
    · rw [inner_emit i d h]
      exact first

/-- The next answer, knowing that a character leaves fewer. -/
def nextFewer {σ : Type} [FiniteSource σ] (s : LineEndings σ) :
    { a : Option Char × LineEndings σ // ∀ c s', a = (some c, s') →
      FiniteSource.remaining s'.inner < FiniteSource.remaining s.inner } :=
  ⟨s.next, fun _ _ => remaining_next_lt⟩

/-- All answers up to the first empty one, which is used up too. -/
def drain {σ : Type} [FiniteSource σ] (s : LineEndings σ) : List Char × LineEndings σ :=
  match s.nextFewer with
  | ⟨(none, rest), _⟩ => ([], rest)
  | ⟨(some c, rest), _⟩ =>
    let (cs, last) := rest.drain
    (c :: cs, last)
termination_by FiniteSource.remaining s.inner
decreasing_by
  rename_i fewer
  exact fewer c rest rfl

instance [Described σ] : Described (LineEndings σ) :=
  ⟨fun s => .record "LineEndings" [("inner", outline s.inner), ("last_cr", outline s.afterCr)]⟩

end LineEndings

end TableLexer
