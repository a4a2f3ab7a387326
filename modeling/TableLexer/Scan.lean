import TableLexer.LineEndings
import TableLexer.Machine

/-!
# Scans of a text

There are two ways to run a table over a text. A `Scan` is pulled: each pull gives
the next token, and a character that flushed a token without being consumed is
parked, with its hops, until the next pull. `Table.stream` pushes all tokens to a
consumer until it refuses one. Both see the text with its line endings normalized.

A pull that gives an item uses up a character or a hop of the parked one, or ends
the scan, so a scan has finitely many items.
-/

namespace TableLexer

structure Scan where
  /-- The normalized characters not yet taken. -/
  rest : List Char
  machine : Machine := {}
  /-- A character to be looked at again, with the hops it has taken. -/
  parked : Option (Char × Nat) := none
  done : Bool := false
  deriving DecidableEq, Repr

/-- The answer to a pull; nothing if the scan is exhausted. -/
structure Pull (α τ : Type) where
  scan : Scan
  journal : Journal α
  item : Option (Except Stop τ)

/-- What comes of a character: an answer to the pull, or the character is consumed
without one. -/
inductive Chase (α τ : Type) where
  | answer (pull : Pull α τ)
  | quiet (machine : Machine) (journal : Journal α)

namespace Scan

variable {α τ : Type}

/-- A scan of `text` from its beginning. -/
def start (text : String) (j : Journal α) : Scan × Journal α :=
  ({ rest := normalize text.toList }, j.log (.scanStarted text.utf8ByteSize))

/-- The flush at the end of the text ends the scan, whatever comes of it. -/
def finish (t : Table α τ) (m : Machine) (j : Journal α) : Pull α τ :=
  let flushed := m.flushEnd t j
  ⟨{ rest := [], machine := flushed.machine, done := true }, flushed.journal,
    match flushed.result with
    | .ok none => none
    | .ok (some token) => some (.ok token)
    | .error stop => some (.error stop)⟩

section

variable [Described α]

/-- Look at a character that has taken `hops` hops until it is consumed or there is
an answer, with `rest` to come after it. An error ends the scan; a failure of the
factory loses the character, but the scan goes on. -/
def chase (t : Table α τ) (rest : List Char) (m : Machine) (ch : Char) (hops : Nat)
    (j : Journal α) : Chase α τ :=
  match m.fire t ch hops j with
  | ⟨m, j, .error (.error e)⟩ =>
    .answer ⟨{ rest, machine := m, done := true }, j, some (.error (.error e))⟩
  | ⟨m, j, .error stop⟩ => .answer ⟨{ rest, machine := m }, j, some (.error stop)⟩
  | ⟨m, j, .ok (.consumed (some token))⟩ => .answer ⟨{ rest, machine := m }, j, some (.ok token)⟩
  | ⟨m, j, .ok (.consumed none)⟩ => .quiet m j
  | ⟨m, j, .ok (.again token)⟩ =>
    if hops < hopCeiling then
      match token with
      | some token =>
        .answer ⟨{ rest, machine := m, parked := some (ch, hops + 1) }, j, some (.ok token)⟩
      | none => chase t rest m ch (hops + 1) j
    else .answer ⟨{ rest, machine := m }, j, some (.error .hopOverflow)⟩
termination_by hopCeiling - hops

/-- Pull when nothing is parked. -/
def pullFrom (t : Table α τ) (m : Machine) (j : Journal α) : List Char → Pull α τ
  | [] => finish t m j
  | ch :: rest =>
    match chase t rest m ch 0 j with
    | .answer p => p
    | .quiet m j => pullFrom t m j rest

/-- The next item of a scan. -/
def pull (t : Table α τ) (s : Scan) (j : Journal α) : Pull α τ :=
  if s.done then ⟨s, j, none⟩
  else
    match s.parked with
    | none => pullFrom t s.machine j s.rest
    | some (ch, hops) =>
      match chase t s.rest s.machine ch hops j with
      | .answer p => p
      | .quiet m j => pullFrom t m j s.rest

/-- A scan that is done has nothing more to give. -/
@[simp] theorem pull_done (t : Table α τ) {s : Scan} (j : Journal α) (h : s.done = true) :
    pull t s j = ⟨s, j, none⟩ := by
  simp [pull, h]

end

/-! ## What is left of a scan -/

/-- The characters left to take and one for the end, or 0 when the scan is done. -/
def ahead (s : Scan) : Nat := if s.done then 0 else s.rest.length + 1

/-- The hops that a parked character may still take, and one for consuming it. -/
def slack (s : Scan) : Nat :=
  match s.parked with
  | none => 0
  | some (_, hops) => hopCeiling - hops + 1

/-- Less is left of `s'` than of `s`. -/
def Less (s' s : Scan) : Prop := s'.ahead < s.ahead ∨ s'.ahead = s.ahead ∧ s'.slack < s.slack

theorem Less.lex {s' s : Scan} (h : Less s' s) :
    Prod.Lex (· < ·) (· < ·) (s'.ahead, s'.slack) (s.ahead, s.slack) :=
  Prod.lex_def.2 h

section

variable [Described α]

theorem chase_bounds {t : Table α τ} {rest : List Char} {m : Machine} {ch : Char} {hops : Nat}
    {j : Journal α} {p : Pull α τ} (h : chase t rest m ch hops j = .answer p) :
    p.scan.ahead ≤ rest.length + 1 ∧ p.scan.slack ≤ hopCeiling - hops := by
  fun_induction chase t rest m ch hops j with
  | case4 => simp at h
  | case6 m hops j m' j' hf hlt ih =>
    have := ih h
    omega
  | _ =>
    cases h
    simp [ahead, slack]
    try omega

theorem ahead_pullFrom (t : Table α τ) (m : Machine) (j : Journal α) (cs : List Char) :
    (pullFrom t m j cs).scan.ahead ≤ cs.length := by
  fun_induction pullFrom t m j cs with
  | case1 => simp [finish, ahead]
  | case2 m j ch rest p h => exact (chase_bounds h).1
  | case3 m j ch rest m' j' h ih => exact Nat.le_succ_of_le ih

/-- Every pull of a scan that is not done leaves less of it. -/
theorem pull_less (t : Table α τ) (s : Scan) (j : Journal α) (h : s.done = false) :
    Less (pull t s j).scan s := by
  obtain ⟨rest, m, parked, done⟩ := s
  subst h
  cases parked with
  | none =>
    have := ahead_pullFrom t m j rest
    simp [pull, Less, ahead] at this ⊢
    omega
  | some held =>
    obtain ⟨ch, hops⟩ := held
    cases hc : chase t rest m ch hops j with
    | answer p =>
      have := chase_bounds hc
      simp [pull, hc, Less, ahead, slack] at this ⊢
      omega
    | quiet m' j' =>
      have := ahead_pullFrom t m' j' rest
      simp [pull, hc, Less, ahead] at this ⊢
      omega

/-- The answer to a pull, knowing that an item leaves less of the scan. -/
def pullLess (t : Table α τ) (s : Scan) (j : Journal α) :
    { p : Pull α τ // p.item.isSome → Less p.scan s } :=
  ⟨pull t s j, fun h => by
    cases hd : s.done with
    | false => exact pull_less t s j hd
    | true => simp [hd] at h⟩

/-- Pull all tokens up to the end or the first failure. -/
def collect (t : Table α τ) (s : Scan) (j : Journal α) (tokens : Array τ) :
    Except Stop (Array τ) × Journal α :=
  match pullLess t s j with
  | ⟨⟨_, j, none⟩, _⟩ => (.ok tokens, j)
  | ⟨⟨_, j, some (.error stop)⟩, _⟩ => (.error stop, j)
  | ⟨⟨s, j, some (.ok token)⟩, _⟩ => collect t s j (tokens.push token)
termination_by (s.ahead, s.slack)
decreasing_by
  rename_i less
  exact (less rfl).lex

/-- The equation of `collect` in terms of plain pulls. -/
theorem collect_eq (t : Table α τ) (s : Scan) (j : Journal α) (tokens : Array τ) :
    collect t s j tokens =
      match pull t s j with
      | ⟨_, j, none⟩ => (.ok tokens, j)
      | ⟨_, j, some (.error stop)⟩ => (.error stop, j)
      | ⟨s, j, some (.ok token)⟩ => collect t s j (tokens.push token) := by
  rw [collect]
  rcases h : pull t s j with ⟨s', j', _ | ⟨_ | _⟩⟩ <;> simp [pullLess, h]

def outlineIn (t : Table α τ) (s : Scan) : Outline :=
  .record "Tokens"
    [("machine", s.machine.outlineIn t), ("parked", outline s.parked), ("done", outline s.done)]

end

end Scan

namespace Table

variable {α τ : Type} [Described α]

/-- All tokens of `text`. -/
def tokens (t : Table α τ) (text : String) (j : Journal α) :
    Except Stop (Array τ) × Journal α :=
  let (s, j) := Scan.start text j
  s.collect t j #[]

/-- Push the tokens of `text` to a consumer until it refuses one. A refusal of the
last token, flushed at the end of the text, stops nothing and is not logged. -/
def stream (t : Table α τ) (text : String) (sink : Sink τ) (j : Journal α) : Delivery α τ :=
  match (Machine.feedAll t sink {} #[] j (normalize text.toList)).1 with
  | ⟨m, j, received, .ok true⟩ => m.close t sink received j
  | ⟨m, j, received, .ok false⟩ => ⟨m, j.log .downstreamStopped, received, .ok false⟩
  | stopped => stopped

/-- The outline of a tokenizer, which is a table ready to scan texts. -/
def tokenizerOutline (t : Table α τ) : Outline := .record "Tokenizer" [("table", outline t)]

end Table

end TableLexer
