import TableLexer.Proofs.Turns

/-!
# The transcript of a scan

`Scan.transcript` pulls a scan until a pull gives nothing, and keeps every item on the
way. It can be read in two ways: pull by pull, where item number `k` is what the pull
of that number gives (`item_nth`), or firing by firing, where each rule that fires
puts its token, if any, in front of what is to come (`transcript_fired`).

For a factory that never fails and a limit below the ceiling of the counter, a scan
has only four cases, and `scan_induction` goes through them.
-/

namespace TableLexer

variable {α τ : Type}

/-- All items of a scan, and the journal after the last of them. -/
structure Transcript (α τ : Type) where
  items : List (Except Stop τ)
  journal : Journal α

/-- The factory answers every call. -/
def Factory.Total (factory : Factory α τ) : Prop :=
  ∀ earlier call, ∃ token, factory earlier call = .ok token

theorem Factory.Total.ne_error {factory : Factory α τ} (total : factory.Total)
    (earlier : Array (Call α)) (call : Call α) (fault : Fault) :
    factory earlier call ≠ .error fault := by
  obtain ⟨token, answer⟩ := total earlier call
  simp [answer]

theorem Factory.total_text : (Factory.text : Factory α String).Total :=
  fun _ _ => ⟨_, rfl⟩

/-- The flush at the end of the input makes at most one call. -/
theorem Machine.calls_of_flushEnd (t : Table α τ) (m : Machine) (j : Journal α) :
    ∃ calls : List (Call α), (m.flushEnd t j).journal.calls = j.calls ++ calls.toArray ∧
      calls.length ≤ 1 ∧ ∀ call ∈ calls, call.atEnd = true := by
  have closes := closes_flushEnd t m j
  generalize m.flushEnd t j = o at closes ⊢
  cases closes with
  | unknown unlabelled => exact ⟨[], by simp⟩
  | @failed label fault labelled answer => exact ⟨[⟨label, m.held, true⟩], by simp⟩
  | @flushed label token labelled answer => exact ⟨[⟨label, m.held, true⟩], by simp⟩

variable [Described α]

/-- A firing makes at most one call. -/
theorem Machine.calls_of_fire {t : Table α τ} {m m' : Machine} {ch : Char} {hops : Nat}
    {j k : Journal α} {r : Except Stop (Reaction τ)} (fired : m.fire t ch hops j = ⟨m', k, r⟩) :
    ∃ calls : List (Call α), k.calls = j.calls ++ calls.toArray ∧ calls.length ≤ 1 ∧
      ∀ call ∈ calls, call.atEnd = false := by
  have fires := fires_fire t m ch hops j
  rw [fired] at fires
  cases fires with
  | overLimit beyond => exact ⟨[], by simp⟩
  | noRule within missing => exact ⟨[], by simp⟩
  | kept within selected keeps => exact ⟨[], by simp⟩
  | @failed rule label fault within selected flushes labelled answer =>
    exact ⟨[⟨label, (m.move rule ch).held, false⟩], by simp⟩
  | @flushed rule label token within selected flushes labelled answer =>
    exact ⟨[⟨label, (m.move rule ch).held, false⟩], by simp⟩

/-- Where the factory answers every call, only an error can stop a firing. -/
theorem Machine.error_of_fire {t : Table α τ} (total : t.factory.Total) {m m' : Machine}
    {ch : Char} {hops : Nat} {j k : Journal α} {stop : Stop}
    (fired : m.fire t ch hops j = ⟨m', k, .error stop⟩) : ∃ e, stop = .error e := by
  have fires := fires_fire t m ch hops j
  rw [fired] at fires
  cases fires with
  | overLimit beyond => exact ⟨_, rfl⟩
  | noRule within missing => exact ⟨_, rfl⟩
  | failed within selected flushes labelled answer =>
    exact absurd answer (total.ne_error _ _ _)

namespace Scan

/-- Pull a scan until nothing is left. -/
def transcript (t : Table α τ) (s : Scan) (j : Journal α) : Transcript α τ :=
  match pullLess t s j with
  | ⟨⟨_, j, none⟩, _⟩ => ⟨[], j⟩
  | ⟨⟨s, j, some item⟩, _⟩ =>
    let later := transcript t s j
    ⟨item :: later.items, later.journal⟩
termination_by (s.ahead, s.slack)
decreasing_by
  rename_i less
  exact (less rfl).lex

theorem transcript_eq (t : Table α τ) (s : Scan) (j : Journal α) :
    transcript t s j =
      match pull t s j with
      | ⟨_, j, none⟩ => ⟨[], j⟩
      | ⟨s, j, some item⟩ => ⟨item :: (transcript t s j).items, (transcript t s j).journal⟩ := by
  rw [transcript]
  rcases h : pull t s j with ⟨s', j', _ | item⟩ <;> simp [pullLess, h]

@[simp] theorem transcript_done (t : Table α τ) {s : Scan} (j : Journal α) (h : s.done = true) :
    transcript t s j = ⟨[], j⟩ := by
  rw [transcript_eq, pull_done t j h]

/-! ## Pull by pull -/

/-- What is left after `k` pulls, whatever they give. -/
def pulled (t : Table α τ) : Nat → Scan → Journal α → Scan × Journal α
  | 0, s, j => (s, j)
  | k + 1, s, j => pulled t k (pull t s j).scan (pull t s j).journal

/-- The answer to the pull that comes after `k` others. -/
def nth (t : Table α τ) (k : Nat) (s : Scan) (j : Journal α) : Pull α τ :=
  pull t (pulled t k s j).1 (pulled t k s j).2

theorem nth_succ (t : Table α τ) (k : Nat) (s : Scan) (j : Journal α) :
    nth t (k + 1) s j = nth t k (pull t s j).scan (pull t s j).journal := rfl

theorem pulled_add (t : Table α τ) (k n : Nat) (s : Scan) (j : Journal α) :
    pulled t (k + n) s j = pulled t n (pulled t k s j).1 (pulled t k s j).2 := by
  induction k generalizing s j with
  | zero => rw [Nat.zero_add, pulled]
  | succ k ih => rw [Nat.succ_add, pulled, pulled, ih]

theorem pulled_done (t : Table α τ) {s : Scan} (j : Journal α) (h : s.done = true) (k : Nat) :
    pulled t k s j = (s, j) := by
  induction k with
  | zero => rfl
  | succ k ih => rw [pulled, pull_done t j h, ih]

/-- A transcript lists what one pull after the other gives. -/
theorem item_nth (t : Table α τ) (k : Nat) (s : Scan) (j : Journal α) :
    (nth t k s j).item = (transcript t s j).items[k]? := by
  induction k generalizing s j with
  | zero =>
    rw [transcript_eq]
    rcases h : pull t s j with ⟨s', j', _ | item⟩ <;> simp [nth, pulled, h]
  | succ k ih =>
    rw [nth_succ, ih, transcript_eq t s]
    rcases h : pull t s j with ⟨s', j', _ | item⟩
    · rw [transcript_done t j' (done_of_pull_none h)]
      rfl
    · rfl

/-- A transcript is complete when the scan is done. -/
theorem transcript_of_pulled {t : Table α τ} {k : Nat} {s : Scan} {j : Journal α}
    (h : (pulled t k s j).1.done = true) :
    transcript t s j =
      ⟨(List.range k).filterMap fun i => (nth t i s j).item, (pulled t k s j).2⟩ := by
  induction k generalizing s j with
  | zero => exact transcript_done t j h
  | succ k ih =>
    have later := ih h
    have first : nth t 0 s j = pull t s j := rfl
    rw [transcript_eq, List.range_succ_eq_map, List.filterMap_cons, List.filterMap_map]
    simp only [Function.comp_def, Nat.succ_eq_add_one, nth_succ, first, pulled]
    rcases pulls : pull t s j with ⟨s', j', _ | item⟩
    · simp only [pulls] at later
      rw [transcript_done t j' (done_of_pull_none pulls)] at later
      exact later
    · simp only [pulls] at later
      simp only [later]

/-! ## Firing by firing -/

/-- A rule that fires answers the pull with its token, or leaves it to what comes next. -/
theorem pull_fired {t : Table α τ} {s s' : Scan} {j k : Journal α} {ch : Char} {hops : Nat}
    {rest : List Char} {m : Machine} {reaction : Reaction τ} (hd : s.done = false)
    (hu : s.upcoming = some (ch, hops, rest))
    (ho : s.machine.fire t ch hops j = ⟨m, k, .ok reaction⟩)
    (hs : after rest ch hops m reaction = some s') :
    pull t s j =
      match reaction.token with
      | none => pull t s' k
      | some token => ⟨s', k, some (.ok token)⟩ := by
  rw [pull_eq_turn, turn_up t j hd hu, ho]
  simp only [settle, hs]
  cases reaction.token <;> rfl

theorem pull_errored {t : Table α τ} {s : Scan} {j k : Journal α} {ch : Char} {hops : Nat}
    {rest : List Char} {m : Machine} {e : ScanError} (hd : s.done = false)
    (hu : s.upcoming = some (ch, hops, rest))
    (ho : s.machine.fire t ch hops j = ⟨m, k, .error (.error e)⟩) :
    pull t s j = ⟨{ rest, machine := m, done := true }, k, some (.error (.error e))⟩ := by
  rw [pull_eq_turn, turn_up t j hd hu, ho]
  rfl

theorem pull_ended {t : Table α τ} {s : Scan} {j : Journal α} (hd : s.done = false)
    (hu : s.upcoming = none) : pull t s j = finish t s.machine j :=
  pull_of_answer (turn_end t j hd hu)

/-- A rule that fires puts its token, if any, before all that is to come. -/
theorem transcript_fired {t : Table α τ} {s s' : Scan} {j k : Journal α} {ch : Char} {hops : Nat}
    {rest : List Char} {m : Machine} {reaction : Reaction τ} (hd : s.done = false)
    (hu : s.upcoming = some (ch, hops, rest))
    (ho : s.machine.fire t ch hops j = ⟨m, k, .ok reaction⟩)
    (hs : after rest ch hops m reaction = some s') :
    transcript t s j = ⟨reaction.token.toList.map .ok ++ (transcript t s' k).items,
      (transcript t s' k).journal⟩ := by
  rw [transcript_eq, pull_fired hd hu ho hs]
  cases reaction.token with
  | none => exact (transcript_eq t s' k).symm
  | some token => rfl

/-- An error is the last item. -/
theorem transcript_errored {t : Table α τ} {s : Scan} {j k : Journal α} {ch : Char} {hops : Nat}
    {rest : List Char} {m : Machine} {e : ScanError} (hd : s.done = false)
    (hu : s.upcoming = some (ch, hops, rest))
    (ho : s.machine.fire t ch hops j = ⟨m, k, .error (.error e)⟩) :
    transcript t s j = ⟨[.error (.error e)], k⟩ := by
  rw [transcript_eq, pull_errored hd hu ho]
  dsimp only
  rw [transcript_done t k rfl]

theorem transcript_ended {t : Table α τ} {s : Scan} {j : Journal α} (hd : s.done = false)
    (hu : s.upcoming = none) :
    transcript t s j =
      ⟨(finish t s.machine j).item.toList, (finish t s.machine j).journal⟩ := by
  rw [transcript_eq, pull_ended hd hu]
  unfold finish
  rcases s.machine.flushEnd t j with ⟨m, k, stop | _ | token⟩
  · simp
  · rfl
  · simp

/-- With a factory that always answers and a limit below the ceiling, a scan is done,
or at the end of its text, or stops with an error, or fires a rule and goes on. -/
theorem scan_induction {t : Table α τ} (hl : t.limits.maxHops.toNat < hopCeiling)
    (total : t.factory.Total) {motive : Scan → Journal α → Prop}
    (done : ∀ s j, s.done = true → motive s j)
    (ended : ∀ s j, s.done = false → s.upcoming = none → motive s j)
    (errored : ∀ s j ch hops rest m k e, s.done = false → s.upcoming = some (ch, hops, rest) →
      s.machine.fire t ch hops j = ⟨m, k, .error (.error e)⟩ → motive s j)
    (fired : ∀ s j ch hops rest m k reaction s', s.done = false →
      s.upcoming = some (ch, hops, rest) → s.machine.fire t ch hops j = ⟨m, k, .ok reaction⟩ →
      after rest ch hops m reaction = some s' → motive s' k → motive s j)
    (s : Scan) (j : Journal α) : motive s j := by
  induction s using wellFounded_less.induction generalizing j with
  | _ s ih =>
    have less := turn_less t s j
    have turns := turns_turn t s j
    generalize turn t s j = u at less turns
    cases turns with
    | idle hd => exact done s j hd
    | ended hd nothing => exact ended s j hd nothing
    | failed hd up ho =>
      obtain ⟨e, rfl⟩ := Machine.error_of_fire total ho
      exact errored s j _ _ _ _ _ e hd up ho
    -- a firing within the limit leaves room for one more hop below the ceiling
    | overflowed hd up ho stuck =>
      have within := Machine.within_of_fire_ok ho
      obtain ⟨s', next⟩ := exists_after _ _ _ _ (Nat.lt_of_le_of_lt within hl)
      exact absurd (stuck.symm.trans next) (by simp)
    | quiet hd up ho next silent =>
      exact fired s j _ _ _ _ _ _ _ hd up ho next (ih _ (less hd) _)
    | gave hd up ho next given =>
      exact fired s j _ _ _ _ _ _ _ hd up ho next (ih _ (less hd) _)

/-! ## Tokens and the last item -/

omit [Described α] in
/-- The flush at the end of the text gives a token or none, unless the state has no
label to flush for. -/
theorem item_finish {t : Table α τ} (total : t.factory.Total) (m : Machine) (j : Journal α) :
    (∃ token : Option τ, (finish t m j).item = token.map .ok) ∨
      t.label? m.state = none ∧ ∃ e, (finish t m j).item = some (.error (.error e)) := by
  have closes := Machine.closes_flushEnd t m j
  unfold finish
  generalize m.flushEnd t j = o at closes ⊢
  cases closes with
  | unknown unlabelled => exact .inr ⟨unlabelled, _, rfl⟩
  | failed labelled answer =>
    exact absurd answer (total.ne_error _ _ _)
  | @flushed label token labelled answer => exact .inl ⟨token, by cases token <;> rfl⟩

/-- A transcript has tokens only, or tokens and an error after them. -/
theorem items_eq_tokens {t : Table α τ} (hl : t.limits.maxHops.toNat < hopCeiling)
    (total : t.factory.Total) (s : Scan) (j : Journal α) :
    ∃ tokens : List τ, (transcript t s j).items = tokens.map .ok ∨
      ∃ e, (transcript t s j).items = tokens.map .ok ++ [.error (.error e)] := by
  induction s, j using scan_induction hl total with
  | done s j hd => exact ⟨[], .inl (by rw [transcript_done t j hd]; rfl)⟩
  | ended s j hd hu =>
    rw [transcript_ended hd hu]
    obtain ⟨token, item⟩ | ⟨-, e, item⟩ := item_finish total s.machine j
    · exact ⟨token.toList, .inl (by rw [item]; cases token <;> rfl)⟩
    · exact ⟨[], .inr ⟨e, by rw [item]; rfl⟩⟩
  | errored s j ch hops rest m k e hd hu ho =>
    rw [transcript_errored hd hu ho]
    exact ⟨[], .inr ⟨e, rfl⟩⟩
  | fired s j ch hops rest m k reaction s' hd hu ho hs ih =>
    rw [transcript_fired hd hu ho hs]
    obtain ⟨tokens, items | ⟨e, items⟩⟩ := ih
    · exact ⟨reaction.token.toList ++ tokens, .inl (by rw [items, List.map_append])⟩
    · exact ⟨reaction.token.toList ++ tokens, .inr ⟨e, by simp [items]⟩⟩

/-- The tokens of a scan are those of its transcript, up to the first failure. -/
theorem collect_eq_items (t : Table α τ) (s : Scan) (j : Journal α) (earlier : Array τ) :
    (collect t s j earlier).1 =
      ((transcript t s j).items.mapM id).map fun tokens => earlier ++ tokens.toArray := by
  induction s using wellFounded_less.induction generalizing j earlier with
  | _ s ih =>
    rw [collect_eq, transcript_eq]
    rcases h : pull t s j with ⟨s', j', _ | stop | token⟩
    · simp [pure, Except.pure, Except.map]
    · simp [bind, Except.bind, Except.map]
    · dsimp only
      rw [ih s' (less_of_pull h), List.mapM_cons]
      cases (transcript t s' j').items.mapM id with
      | error stop => rfl
      | ok tokens => simp [bind, Except.bind, pure, Except.pure, Except.map]

end Scan

/-- All items of a text and the journal they leave. -/
def Table.transcript (t : Table α τ) (text : String) (j : Journal α) : Transcript α τ :=
  (Scan.start text j).1.transcript t (Scan.start text j).2

end TableLexer
