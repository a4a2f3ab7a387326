import TableLexer.Proofs.Firing
import TableLexer.Scan

/-!
# A scan turn by turn

One turn of a scan takes the character that is up, fires one rule on it, and
either answers the pull or goes on to the next turn. `pull_eq_turn` says that a
pull is its first turn followed by the pull of what is left. What holds of every
turn then holds of every pull by induction on what is left of the scan.

`Yields` describes pulls as a sequence: the tokens given so far, with the scan and
the journal they leave.
-/

namespace TableLexer

variable {α τ : Type}

/-- One turn answers the pull, or leaves it to the turns after it. -/
inductive Turn (α τ : Type) where
  | answer (pull : Pull α τ)
  | onward (scan : Scan) (journal : Journal α)

def Turn.scan : Turn α τ → Scan
  | .answer p => p.scan
  | .onward s _ => s

def Stop.isError : Stop → Bool
  | .error _ => true
  | _ => false

def Reaction.token : Reaction τ → Option τ
  | .consumed token => token
  | .again token => token

namespace Scan

/-- The character that is up with its hops, and the characters after it. -/
def upcoming (s : Scan) : Option (Char × Nat × List Char) :=
  match s.parked with
  | some (ch, hops) => some (ch, hops, s.rest)
  | none =>
    match s.rest with
    | [] => none
    | ch :: rest => some (ch, 0, rest)

/-- The scan after a reaction to `ch`, with `rest` to come: the character is gone, or
parked with one more hop. There is none if the hop counter cannot grow. -/
def after (rest : List Char) (ch : Char) (hops : Nat) (m : Machine) : Reaction τ → Option Scan
  | .consumed _ => some { rest, machine := m }
  | .again _ =>
    if hops < hopCeiling then some { rest, machine := m, parked := some (ch, hops + 1) } else none

/-- What the outcome of a firing means for the scan. Only an error ends it. -/
def settle (rest : List Char) (ch : Char) (hops : Nat) : Outcome α (Reaction τ) → Turn α τ
  | ⟨m, j, .error stop⟩ =>
    .answer ⟨{ rest, machine := m, done := stop.isError }, j, some (.error stop)⟩
  | ⟨m, j, .ok reaction⟩ =>
    match after rest ch hops m reaction with
    | none => .answer ⟨{ rest, machine := m }, j, some (.error .hopOverflow)⟩
    | some s =>
      match reaction.token with
      | none => .onward s j
      | some token => .answer ⟨s, j, some (.ok token)⟩

theorem exists_after (rest : List Char) (ch : Char) {hops : Nat} (m : Machine)
    (reaction : Reaction τ) (h : hops < hopCeiling) :
    ∃ s, after rest ch hops m reaction = some s := by
  cases reaction with
  | consumed token => exact ⟨_, rfl⟩
  | again token => exact ⟨_, if_pos h⟩

theorem after_eq_some {rest : List Char} {ch : Char} {hops : Nat} {m : Machine}
    {reaction : Reaction τ} {s : Scan} (h : after rest ch hops m reaction = some s) :
    (∃ token, reaction = .consumed token ∧ s = { rest, machine := m }) ∨
      ∃ token, reaction = .again token ∧ hops < hopCeiling ∧
        s = { rest, machine := m, parked := some (ch, hops + 1) } := by
  cases reaction with
  | consumed token =>
    cases h
    exact .inl ⟨token, rfl, rfl⟩
  | again token =>
    simp only [after] at h
    split at h
    · next hlt =>
      cases h
      exact .inr ⟨token, rfl, hlt, rfl⟩
    · cases h

theorem machine_after {rest : List Char} {ch : Char} {hops : Nat} {m : Machine}
    {reaction : Reaction τ} {s : Scan} (h : after rest ch hops m reaction = some s) :
    s.machine = m := by
  obtain ⟨token, rfl, rfl⟩ | ⟨token, rfl, -, rfl⟩ := after_eq_some h <;> rfl

theorem done_after {rest : List Char} {ch : Char} {hops : Nat} {m : Machine}
    {reaction : Reaction τ} {s : Scan} (h : after rest ch hops m reaction = some s) :
    s.done = false := by
  obtain ⟨token, rfl, rfl⟩ | ⟨token, rfl, -, rfl⟩ := after_eq_some h <;> rfl

/-- The character that is up is the parked one, or else the first of the text. -/
theorem upcoming_eq_some {s : Scan} {ch : Char} {hops : Nat} {rest : List Char}
    (hu : s.upcoming = some (ch, hops, rest)) :
    (s.parked = some (ch, hops) ∧ s.rest = rest) ∨
      (s.parked = none ∧ hops = 0 ∧ s.rest = ch :: rest) := by
  obtain ⟨rest', m, parked, done⟩ := s
  cases parked with
  | some held =>
    simp only [upcoming, Option.some.injEq, Prod.mk.injEq] at hu
    obtain ⟨rfl, rfl, rfl⟩ := hu
    exact .inl ⟨rfl, rfl⟩
  | none =>
    cases rest' with
    | nil => simp [upcoming] at hu
    | cons c cs =>
      simp only [upcoming, Option.some.injEq, Prod.mk.injEq] at hu
      obtain ⟨rfl, rfl, rfl⟩ := hu
      exact .inr ⟨rfl, rfl, rfl⟩

theorem upcoming_eq_none {s : Scan} (hu : s.upcoming = none) : s.parked = none ∧ s.rest = [] := by
  obtain ⟨rest, m, parked, done⟩ := s
  cases parked with
  | some held => simp [upcoming] at hu
  | none =>
    cases rest with
    | nil => exact ⟨rfl, rfl⟩
    | cons c cs => simp [upcoming] at hu

/-- After a firing the text is one character shorter, and only a character that may
still hop is parked. -/
theorem scan_settle (rest : List Char) (ch : Char) (hops : Nat) (o : Outcome α (Reaction τ)) :
    (settle rest ch hops o).scan.rest = rest ∧
      ((settle rest ch hops o).scan.parked = none ∨
        hops < hopCeiling ∧ (settle rest ch hops o).scan.parked = some (ch, hops + 1)) := by
  rcases o with ⟨m, j, _ | (⟨_ | _⟩ | ⟨_ | _⟩)⟩
  all_goals by_cases hc : hops < hopCeiling
  all_goals simp [settle, after, Reaction.token, Turn.scan, hc]

variable [Described α]

def turn (t : Table α τ) (s : Scan) (j : Journal α) : Turn α τ :=
  if s.done then .answer ⟨s, j, none⟩
  else
    match s.upcoming with
    | none => .answer (finish t s.machine j)
    | some (ch, hops, rest) => settle rest ch hops (s.machine.fire t ch hops j)

/-- A scan that has nothing up and is not done ends with this turn. -/
theorem turn_end (t : Table α τ) {s : Scan} (j : Journal α) (hd : s.done = false)
    (hu : s.upcoming = none) : turn t s j = .answer (finish t s.machine j) := by
  simp [turn, hd, hu]

theorem turn_up (t : Table α τ) {s : Scan} (j : Journal α) {ch : Char} {hops : Nat}
    {rest : List Char} (hd : s.done = false) (hu : s.upcoming = some (ch, hops, rest)) :
    turn t s j = settle rest ch hops (s.machine.fire t ch hops j) := by
  simp [turn, hd, hu]

/-- Everything that a turn can come to. -/
inductive Turns (t : Table α τ) (s : Scan) (j : Journal α) : Turn α τ → Prop where
  | idle (done : s.done = true) : Turns t s j (.answer ⟨s, j, none⟩)
  | ended (undone : s.done = false) (nothing : s.upcoming = none) :
    Turns t s j (.answer (finish t s.machine j))
  | failed {ch : Char} {hops : Nat} {rest : List Char} {m : Machine} {k : Journal α} {stop : Stop}
      (undone : s.done = false) (up : s.upcoming = some (ch, hops, rest))
      (fired : s.machine.fire t ch hops j = ⟨m, k, .error stop⟩) :
    Turns t s j
      (.answer ⟨{ rest, machine := m, done := stop.isError }, k, some (.error stop)⟩)
  | overflowed {ch : Char} {hops : Nat} {rest : List Char} {m : Machine} {k : Journal α}
      {reaction : Reaction τ} (undone : s.done = false) (up : s.upcoming = some (ch, hops, rest))
      (fired : s.machine.fire t ch hops j = ⟨m, k, .ok reaction⟩)
      (stuck : after rest ch hops m reaction = none) :
    Turns t s j (.answer ⟨{ rest, machine := m }, k, some (.error .hopOverflow)⟩)
  | quiet {ch : Char} {hops : Nat} {rest : List Char} {m : Machine} {k : Journal α}
      {reaction : Reaction τ} {s' : Scan} (undone : s.done = false)
      (up : s.upcoming = some (ch, hops, rest))
      (fired : s.machine.fire t ch hops j = ⟨m, k, .ok reaction⟩)
      (next : after rest ch hops m reaction = some s') (silent : reaction.token = none) :
    Turns t s j (.onward s' k)
  | gave {ch : Char} {hops : Nat} {rest : List Char} {m : Machine} {k : Journal α}
      {reaction : Reaction τ} {s' : Scan} {token : τ} (undone : s.done = false)
      (up : s.upcoming = some (ch, hops, rest))
      (fired : s.machine.fire t ch hops j = ⟨m, k, .ok reaction⟩)
      (next : after rest ch hops m reaction = some s') (given : reaction.token = some token) :
    Turns t s j (.answer ⟨s', k, some (.ok token)⟩)

theorem turns_turn (t : Table α τ) (s : Scan) (j : Journal α) : Turns t s j (turn t s j) := by
  cases undone : s.done with
  | true =>
    rw [turn, if_pos undone]
    exact .idle undone
  | false =>
    cases up : s.upcoming with
    | none =>
      rw [turn_end t j undone up]
      exact .ended undone up
    | some u =>
      obtain ⟨ch, hops, rest⟩ := u
      rw [turn_up t j undone up]
      rcases fired : s.machine.fire t ch hops j with ⟨m, k, stop | reaction⟩
      · exact .failed undone up fired
      · unfold settle
        dsimp only
        cases next : after rest ch hops m reaction with
        | none => exact .overflowed undone up fired next
        | some s' =>
          dsimp only
          cases given : reaction.token with
          | none => exact .quiet undone up fired next given
          | some token => exact .gave undone up fired next given

/-- A pull with a character up, as the character and then the rest of the text. -/
theorem pull_up (t : Table α τ) {s : Scan} (j : Journal α) {ch : Char} {hops : Nat}
    {rest : List Char} (hd : s.done = false) (hu : s.upcoming = some (ch, hops, rest)) :
    pull t s j =
      match chase t rest s.machine ch hops j with
      | .answer p => p
      | .quiet m j => pullFrom t m j rest := by
  obtain ⟨rest', m, parked, done⟩ := s
  subst hd
  obtain ⟨hp, hr⟩ | ⟨hp, rfl, hr⟩ := upcoming_eq_some hu
  · subst hp hr
    rfl
  · subst hp hr
    rfl

/-- A pull is its first turn, followed by the pull of what that turn leaves. -/
theorem pull_eq_turn (t : Table α τ) (s : Scan) (j : Journal α) :
    pull t s j =
      match turn t s j with
      | .answer p => p
      | .onward s' j' => pull t s' j' := by
  cases hd : s.done with
  | true => simp [turn, hd]
  | false =>
    cases hu : s.upcoming with
    | none =>
      obtain ⟨hp, hr⟩ := upcoming_eq_none hu
      rw [turn_end t j hd hu]
      simp [pull, pullFrom, hd, hp, hr]
    | some up =>
      obtain ⟨ch, hops, rest⟩ := up
      rw [turn_up t j hd hu, pull_up t j hd hu, chase]
      rcases s.machine.fire t ch hops j with ⟨m, j', (_ | _ | _) | (⟨_ | _⟩ | ⟨_ | _⟩)⟩
      all_goals simp only [settle, after, Reaction.token, Stop.isError]
      · rfl
      -- only a zero-width reaction still looks at the hop counter
      all_goals by_cases hc : hops < hopCeiling
      all_goals simp only [hc, if_true, if_false]
      rfl

theorem pull_of_answer {t : Table α τ} {s : Scan} {j : Journal α} {p : Pull α τ}
    (h : turn t s j = .answer p) : pull t s j = p := by
  rw [pull_eq_turn, h]

theorem pull_of_onward {t : Table α τ} {s s' : Scan} {j j' : Journal α}
    (h : turn t s j = .onward s' j') : pull t s j = pull t s' j' := by
  rw [pull_eq_turn, h]

/-- Every turn of a scan that is not done leaves less of it. -/
theorem turn_less (t : Table α τ) (s : Scan) (j : Journal α) (hd : s.done = false) :
    Less (turn t s j).scan s := by
  cases hu : s.upcoming with
  | none =>
    rw [turn_end t j hd hu]
    left
    simp [Turn.scan, finish, ahead, hd]
  | some up =>
    obtain ⟨ch, hops, rest⟩ := up
    rw [turn_up t j hd hu]
    obtain ⟨hrest, hparked⟩ := scan_settle rest ch hops (s.machine.fire t ch hops j)
    generalize (settle rest ch hops (s.machine.fire t ch hops j)).scan = s' at hrest hparked ⊢
    have hahead : s'.ahead ≤ rest.length + 1 := by
      rw [ahead, hrest]
      split <;> omega
    obtain ⟨hp, hr⟩ | ⟨hp, rfl, hr⟩ := upcoming_eq_some hu
    · -- the parked character was up: it has gone, or it has a hop less to take
      have hslack : s'.slack < s.slack := by
        rcases hparked with hn | ⟨hlt, hs⟩
        · simp [slack, hn, hp]
        · simp only [slack, hs, hp]
          omega
      simp only [Less, ahead, hd, hr] at hahead ⊢
      grind
    · left
      simp only [ahead, hd, hr] at hahead ⊢
      grind

theorem wellFounded_less : WellFounded Less :=
  Subrelation.wf Less.lex (InvImage.wf (fun s : Scan => (s.ahead, s.slack))
    (Prod.lex Nat.lt_wfRel Nat.lt_wfRel).wf)

/-- What an answer shows, and a turn without one passes on, holds of every pull. -/
theorem pull_induction {t : Table α τ} {motive : Scan → Journal α → Pull α τ → Prop}
    (answer : ∀ s j p, Turns t s j (.answer p) → motive s j p)
    (onward : ∀ s j s' j' p, Turns t s j (.onward s' j') → motive s' j' p → motive s j p)
    (s : Scan) (j : Journal α) : motive s j (pull t s j) := by
  induction s using wellFounded_less.induction generalizing j with
  | _ s ih =>
    have turns := turns_turn t s j
    cases hturn : turn t s j with
    | answer p =>
      rw [hturn] at turns
      rw [pull_of_answer hturn]
      exact answer s j p turns
    | onward s' j' =>
      rw [hturn] at turns
      have undone : s.done = false := by
        cases turns
        assumption
      have less := turn_less t s j undone
      rw [hturn] at less
      rw [pull_of_onward hturn]
      exact onward s j s' j' _ turns (ih s' less j')

/-- Nothing comes of a pull only when the scan is done. -/
theorem done_of_pull_none {t : Table α τ} {s s' : Scan} {j j' : Journal α}
    (h : pull t s j = ⟨s', j', none⟩) : s'.done = true := by
  have ends : (pull t s j).item = none → (pull t s j).scan.done = true := by
    refine pull_induction (motive := fun _ _ p => p.item = none → p.scan.done = true) ?_ ?_ s j
    · intro s j p turns nothing
      cases turns with
      | idle done => exact done
      | ended => rfl
      | failed | overflowed | gave => cases nothing
    · intro s j s' j' p turns later
      exact later
  rw [h] at ends
  exact ends rfl

/-! ## Sequences of pulls -/

theorem less_of_pull {t : Table α τ} {s s' : Scan} {j j' : Journal α} {item : Except Stop τ}
    (h : pull t s j = ⟨s', j', some item⟩) : Less s' s := by
  have less := (pullLess t s j).2
  simpa [pullLess, h] using less

/-- Pulling `s` gives the tokens one after the other and leaves `s'` and `j'`. -/
inductive Yields (t : Table α τ) : Scan → Journal α → List τ → Scan → Journal α → Prop where
  | nil (s : Scan) (j : Journal α) : Yields t s j [] s j
  | cons {s s' s'' : Scan} {j j' j'' : Journal α} {token : τ} {tokens : List τ}
      (head : pull t s j = ⟨s', j', some (.ok token)⟩) (tail : Yields t s' j' tokens s'' j'') :
    Yields t s j (token :: tokens) s'' j''

theorem Yields.snoc {t : Table α τ} {s s' s'' : Scan} {j j' j'' : Journal α} {token : τ}
    {tokens : List τ} (init : Yields t s j tokens s' j')
    (last : pull t s' j' = ⟨s'', j'', some (.ok token)⟩) :
    Yields t s j (tokens ++ [token]) s'' j'' := by
  induction init with
  | nil s j => exact .cons last (.nil s'' j'')
  | cons head tail ih => exact .cons head (ih last)

/-- A scan that is done gives no token. -/
theorem Yields.of_done {t : Table α τ} {s s' : Scan} {j j' : Journal α} {tokens : List τ}
    (h : Yields t s j tokens s' j') (hd : s.done = true) : tokens = [] ∧ s' = s ∧ j' = j := by
  cases h with
  | nil => exact ⟨rfl, rfl, rfl⟩
  | cons head tail =>
    rw [pull_done t j hd] at head
    cases head

/-- All tokens of a scan are those given before the first pull that gives nothing. -/
theorem collect_ok {t : Table α τ} {s : Scan} {j k : Journal α} {earlier all : Array τ}
    (h : collect t s j earlier = (.ok all, k)) :
    ∃ tokens s' s'' j', all = earlier ++ tokens.toArray ∧ Yields t s j tokens s' j' ∧
      pull t s' j' = ⟨s'', k, none⟩ := by
  induction s using wellFounded_less.induction generalizing j earlier with
  | _ s ih =>
    rw [collect_eq] at h
    rcases hp : pull t s j with ⟨s', j', _ | stop | token⟩
    · simp only [hp, Prod.mk.injEq, Except.ok.injEq] at h
      obtain ⟨rfl, rfl⟩ := h
      exact ⟨[], s, s', j, by simp, .nil s j, hp⟩
    · simp [hp] at h
    · simp only [hp] at h
      obtain ⟨tokens, s₁, s₂, j₁, rfl, yields, ends⟩ := ih s' (less_of_pull hp) h
      exact ⟨token :: tokens, s₁, s₂, j₁, List.push_append_toArray, .cons hp yields, ends⟩

theorem collect_of_yields {t : Table α τ} {s s' s'' : Scan} {j j' k : Journal α}
    {tokens : List τ} (yields : Yields t s j tokens s' j')
    (ends : pull t s' j' = ⟨s'', k, none⟩) (earlier : Array τ) :
    collect t s j earlier = (.ok (earlier ++ tokens.toArray), k) := by
  induction yields generalizing earlier with
  | nil s j =>
    rw [collect_eq, ends]
    simp
  | cons head tail ih =>
    rw [collect_eq, head]
    dsimp only
    rw [ih ends, List.push_append_toArray]

theorem Yields.split_last {t : Table α τ} {s s'' : Scan} {j j'' : Journal α} {token : τ}
    {tokens : List τ} (h : Yields t s j (tokens ++ [token]) s'' j'') :
    ∃ s' j', Yields t s j tokens s' j' ∧ pull t s' j' = ⟨s'', j'', some (.ok token)⟩ := by
  induction tokens generalizing s j with
  | nil =>
    cases h with
    | cons head tail =>
      cases tail
      exact ⟨s, j, .nil s j, head⟩
  | cons first tokens ih =>
    cases h with
    | cons head tail =>
      obtain ⟨s', j', hy, hlast⟩ := ih tail
      exact ⟨s', j', .cons head hy, hlast⟩

end Scan

/-- Words of small letters; any other character is a token of its own. -/
def wordTable : Table Nat String where
  rows := #[⟨0, [⟨.range 'a' 'z', .shift, 1⟩, ⟨.any, .shiftReduce, 0⟩]⟩,
    ⟨1, [⟨.range 'a' 'z', .shift, 1⟩, ⟨.any, .reduce, 0⟩]⟩]
  nonempty := by decide
  factory := .text
  limits := {}

end TableLexer
