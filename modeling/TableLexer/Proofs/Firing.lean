import TableLexer.Machine

/-!
# What one firing can come to

`Fires` lists the five endings of `Machine.fire` with everything they leave behind,
and `Closes` the three endings of the flush at the end of the input. All invariants
of machines and scans are read off these two lists, so `fire`, `flush` and
`flushEnd` are opened here and nowhere else.
-/

namespace TableLexer

variable {α τ : Type}

namespace Table

/-- A selected rule stands in the row of the state and accepts the character. -/
theorem select_ok [Described α] {t : Table α τ} {id : Nat} {c : Char} {rule : Rule}
    (h : t.select id c = .ok rule) :
    ∃ row, t.rows[id]? = some row ∧ rule ∈ row.rules ∧ rule.pattern.accepts c = true := by
  unfold select at h
  split at h
  · cases h
  · next row hr =>
    split at h
    · next r hf =>
      cases h
      rw [Rule.first_fst] at hf
      have accepts := List.find?_some hf
      exact ⟨row, hr, List.mem_of_find?_eq_some hf, accepts⟩
    · cases h

/-- The search for a rule fails only if there is no row, or no rule in the row. -/
theorem select_error [Described α] {t : Table α τ} {id : Nat} {c : Char} {e : ScanError}
    (h : t.select id c = .error e) :
    (t.rows[id]? = none ∧ e = .unknownState id) ∨
      ∃ row, t.rows[id]? = some row ∧ (∀ rule ∈ row.rules, rule.pattern.accepts c = false) ∧
        e = .unhandled c (t.stateText id) := by
  unfold select at h
  split at h
  · next hr =>
    cases h
    exact .inl ⟨hr, rfl⟩
  · next row hr =>
    split at h
    · cases h
    · next hf =>
      cases h
      rw [Rule.first_fst] at hf
      refine .inr ⟨row, hr, ?_, rfl⟩
      intro rule hm
      simpa using List.find?_eq_none.mp hf rule hm

theorem label?_of_rows {t : Table α τ} {id : Nat} {row : Row α} (h : t.rows[id]? = some row) :
    t.label? id = some row.label := by
  simp [label?, h]

/-- A state that selects a rule has a label to flush for. -/
theorem label?_of_select [Described α] {t : Table α τ} {id : Nat} {c : Char} {rule : Rule}
    (h : t.select id c = .ok rule) : ∃ label, t.label? id = some label := by
  obtain ⟨row, hr, -, -⟩ := select_ok h
  exact ⟨row.label, label?_of_rows hr⟩

end Table

namespace Machine

theorem flush_of_error {t : Table α τ} {m : Machine} {id : Nat} {atEnd : Bool} {j : Journal α}
    {label : α} {fault : Fault} (labelled : t.label? id = some label)
    (answer : t.factory j.calls ⟨label, m.held, atEnd⟩ = .error fault) :
    m.flush t id atEnd j = ⟨m, j.record ⟨label, m.held, atEnd⟩, .error (.fault fault)⟩ := by
  simp [flush, labelled, answer]

theorem flush_of_ok {t : Table α τ} {m : Machine} {id : Nat} {atEnd : Bool} {j : Journal α}
    {label : α} {token : Option τ} (labelled : t.label? id = some label)
    (answer : t.factory j.calls ⟨label, m.held, atEnd⟩ = .ok token) :
    m.flush t id atEnd j = ⟨{ m with held := "" },
      (j.record ⟨label, m.held, atEnd⟩).log (.flushed label m.held atEnd token.isSome),
      .ok token⟩ := by
  simp [flush, labelled, answer]

/-- The event that a rule leaves when it fires on `ch` in the state of `m`. -/
def firing (m : Machine) (rule : Rule) (ch : Char) (hops : Nat) : Event α :=
  .fired ch m.state rule.next rule.action hops

/-- The endings of `fire`: over the limit, no rule, a rule that keeps its text, and
a flush that fails or succeeds. -/
inductive Fires [Described α] (t : Table α τ) (m : Machine) (ch : Char) (hops : Nat)
    (j : Journal α) : Outcome α (Reaction τ) → Prop where
  | overLimit (beyond : t.limits.maxHops.toNat < hops) :
    Fires t m ch hops j ⟨m, j.log (.hopLimitExceeded ch (m.label t) hops),
      .error (.error (.hopLimitExceeded ch (t.stateText m.state) t.limits.maxHops))⟩
  | noRule {e : ScanError} (within : hops ≤ t.limits.maxHops.toNat)
      (missing : t.select m.state ch = .error e) :
    Fires t m ch hops j ⟨m, j.log (.ruleMissing e), .error (.error e)⟩
  | kept {rule : Rule} (within : hops ≤ t.limits.maxHops.toNat)
      (selected : t.select m.state ch = .ok rule) (keeps : rule.action.flushes = false) :
    Fires t m ch hops j
      ⟨m.move rule ch, j.log (m.firing rule ch hops), .ok (Reaction.of rule.action none)⟩
  | failed {rule : Rule} {label : α} {fault : Fault} (within : hops ≤ t.limits.maxHops.toNat)
      (selected : t.select m.state ch = .ok rule) (flushes : rule.action.flushes = true)
      (labelled : t.label? m.state = some label)
      (answer : t.factory j.calls ⟨label, (m.move rule ch).held, false⟩ = .error fault) :
    Fires t m ch hops j
      ⟨m.move rule ch,
        (j.log (m.firing rule ch hops)).record ⟨label, (m.move rule ch).held, false⟩,
        .error (.fault fault)⟩
  | flushed {rule : Rule} {label : α} {token : Option τ} (within : hops ≤ t.limits.maxHops.toNat)
      (selected : t.select m.state ch = .ok rule) (flushes : rule.action.flushes = true)
      (labelled : t.label? m.state = some label)
      (answer : t.factory j.calls ⟨label, (m.move rule ch).held, false⟩ = .ok token) :
    Fires t m ch hops j
      ⟨{ state := rule.next, held := "" },
        ((j.log (m.firing rule ch hops)).record ⟨label, (m.move rule ch).held, false⟩).log
          (.flushed label (m.move rule ch).held false token.isSome),
        .ok (Reaction.of rule.action token)⟩

theorem fires_fire [Described α] (t : Table α τ) (m : Machine) (ch : Char) (hops : Nat)
    (j : Journal α) : Fires t m ch hops j (m.fire t ch hops j) := by
  unfold fire
  split
  · next beyond => exact .overLimit beyond
  · next h =>
    have within : hops ≤ t.limits.maxHops.toNat := Nat.le_of_not_lt h
    split
    · next e missing => exact .noRule within missing
    · next rule selected =>
      obtain ⟨label, labelled⟩ := Table.label?_of_select selected
      split
      · next flushes =>
        cases answer : t.factory j.calls ⟨label, (m.move rule ch).held, false⟩ with
        | error fault =>
          have flushed := flush_of_error (j := j.log (m.firing rule ch hops)) labelled answer
          rw [firing] at flushed
          dsimp only
          rw [flushed]
          exact .failed within selected flushes labelled answer
        | ok token =>
          have flushed := flush_of_ok (j := j.log (m.firing rule ch hops)) labelled answer
          rw [firing] at flushed
          dsimp only
          rw [flushed]
          exact .flushed within selected flushes labelled answer
      · next keeps => exact .kept within selected (by simpa using keeps)

/-- The list is complete: each of the endings is the one that `fire` comes to. -/
theorem Fires.eq [Described α] {t : Table α τ} {m : Machine} {ch : Char} {hops : Nat}
    {j : Journal α} {o : Outcome α (Reaction τ)} (h : Fires t m ch hops j o) :
    m.fire t ch hops j = o := by
  cases h with
  | overLimit beyond => simp [fire, beyond]
  | noRule within missing => simp [fire, Nat.not_lt.mpr within, missing]
  | kept within selected keeps => simp [fire, firing, Nat.not_lt.mpr within, selected, keeps]
  | @failed rule label fault within selected flushes labelled answer =>
    have flushed := flush_of_error (j := j.log (m.firing rule ch hops)) labelled answer
    rw [firing] at flushed
    simp only [fire, firing, Nat.not_lt.mpr within, if_false, selected, flushes, if_true, flushed]
    rfl
  | @flushed rule label token within selected flushes labelled answer =>
    have flushed := flush_of_ok (j := j.log (m.firing rule ch hops)) labelled answer
    rw [firing] at flushed
    simp only [fire, firing, Nat.not_lt.mpr within, if_false, selected, flushes, if_true, flushed]
    rfl

/-- A rule fires only while the hops are within the limit. -/
theorem within_of_fire_ok [Described α] {t : Table α τ} {m m' : Machine} {ch : Char} {hops : Nat}
    {j k : Journal α} {reaction : Reaction τ}
    (fired : m.fire t ch hops j = ⟨m', k, .ok reaction⟩) : hops ≤ t.limits.maxHops.toNat := by
  have fires := fires_fire t m ch hops j
  rw [fired] at fires
  cases fires with
  | kept within selected keeps => exact within
  | flushed within selected flushes labelled answer => exact within

/-- The endings of the flush at the end of the input. -/
inductive Closes (t : Table α τ) (m : Machine) (j : Journal α) : Outcome α (Option τ) → Prop where
  | unknown (unlabelled : t.label? m.state = none) :
    Closes t m j ⟨{}, j, .error (.error (.unknownState m.state))⟩
  | failed {label : α} {fault : Fault} (labelled : t.label? m.state = some label)
      (answer : t.factory j.calls ⟨label, m.held, true⟩ = .error fault) :
    Closes t m j ⟨m, j.record ⟨label, m.held, true⟩, .error (.fault fault)⟩
  | flushed {label : α} {token : Option τ} (labelled : t.label? m.state = some label)
      (answer : t.factory j.calls ⟨label, m.held, true⟩ = .ok token) :
    Closes t m j ⟨{}, (j.record ⟨label, m.held, true⟩).log
      (.flushed label m.held true token.isSome), .ok token⟩

theorem closes_flushEnd (t : Table α τ) (m : Machine) (j : Journal α) :
    Closes t m j (m.flushEnd t j) := by
  unfold flushEnd
  cases labelled : t.label? m.state with
  | none =>
    have unknown : m.flush t m.state true j = ⟨m, j, .error (.error (.unknownState m.state))⟩ := by
      simp [flush, labelled]
    rw [unknown]
    exact .unknown labelled
  | some label =>
    cases answer : t.factory j.calls ⟨label, m.held, true⟩ with
    | error fault =>
      rw [flush_of_error labelled answer]
      exact .failed labelled answer
    | ok token =>
      rw [flush_of_ok labelled answer]
      exact .flushed labelled answer

theorem Closes.eq {t : Table α τ} {m : Machine} {j : Journal α} {o : Outcome α (Option τ)}
    (h : Closes t m j o) : m.flushEnd t j = o := by
  cases h with
  | unknown unlabelled => simp [flushEnd, flush, unlabelled]
  | failed labelled answer => simp [flushEnd, flush_of_error labelled answer]
  | flushed labelled answer => simp [flushEnd, flush_of_ok labelled answer]

/-! ## The log has no influence -/

end Machine

/-- Agreement of two outcomes in all but their logs. -/
structure Outcome.Alike {β : Type} (o o' : Outcome α β) : Prop where
  machine : o.machine = o'.machine
  result : o.result = o'.result
  calls : o.journal.calls = o'.journal.calls

theorem Outcome.Alike.exists_eq {β : Type} {o o' : Outcome α β} (h : o.Alike o') {m : Machine}
    {k : Journal α} {r : Except Stop β} (eq : o' = ⟨m, k, r⟩) :
    ∃ k', o = ⟨m, k', r⟩ ∧ k'.calls = k.calls := by
  obtain ⟨m', k', r'⟩ := o
  subst eq
  obtain ⟨rfl, rfl, hc⟩ := h
  exact ⟨k', rfl, hc⟩

namespace Machine

theorem flush_alike (t : Table α τ) (m : Machine) (id : Nat) (atEnd : Bool) {j j' : Journal α}
    (h : j.calls = j'.calls) : (m.flush t id atEnd j).Alike (m.flush t id atEnd j') := by
  unfold flush
  rw [h]
  cases t.label? id with
  | none => exact ⟨rfl, rfl, h⟩
  | some label =>
    dsimp only
    cases t.factory j'.calls ⟨label, m.held, atEnd⟩ with
    | error fault => exact ⟨rfl, rfl, by simp [h]⟩
    | ok token => exact ⟨rfl, rfl, by simp [h]⟩

theorem fire_alike [Described α] (t : Table α τ) (m : Machine) (ch : Char) (hops : Nat)
    {j j' : Journal α} (h : j.calls = j'.calls) :
    (m.fire t ch hops j).Alike (m.fire t ch hops j') := by
  unfold fire
  split
  · exact ⟨rfl, rfl, h⟩
  · cases t.select m.state ch with
    | error e => exact ⟨rfl, rfl, h⟩
    | ok rule =>
      have logged : (j.log (m.firing rule ch hops)).calls =
          (j'.log (m.firing rule ch hops)).calls := h
      have alike := flush_alike t (m.move rule ch) m.state false logged
      dsimp only
      split
      · exact ⟨alike.machine, congrArg (Except.map (Reaction.of rule.action)) alike.result,
          alike.calls⟩
      · exact ⟨rfl, rfl, h⟩

theorem flushEnd_alike (t : Table α τ) (m : Machine) {j j' : Journal α}
    (h : j.calls = j'.calls) : (m.flushEnd t j).Alike (m.flushEnd t j') := by
  have alike := flush_alike t m m.state true h
  unfold flushEnd
  dsimp only
  rw [alike.result]
  split
  · exact ⟨alike.machine, rfl, alike.calls⟩
  · exact ⟨rfl, rfl, alike.calls⟩

end Machine

end TableLexer
