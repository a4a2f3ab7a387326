import TableLexer.Proofs.PushPull
import TableLexer.Proofs.Transcripts

/-!
# Scans over two tables

Two tables may number their states differently, so their states are compared by label.
`t'.Tracks excused t` says that `t'` takes every transition of `t` under the same
labels and stops where `t` stops, unless `t` stops with an excused error. This is a
condition on single rules. One firing keeps machines matched, hence so does every
pull, and two scans of one text give the same items, up to an excused error.
-/

namespace TableLexer

variable {α τ : Type}

namespace Table

/-- State `id` of `t` and state `id'` of `t'` have the same label. -/
def SameLabel (t t' : Table α τ) (id id' : Nat) : Prop :=
  ∃ label, t.label? id = some label ∧ t'.label? id' = some label

/-- What `t` does, `t'` does too, unless `t` stops with an excused error. -/
structure Tracks [Described α] (t' : Table α τ) (excused : ScanError → Prop)
    (t : Table α τ) : Prop where
  factory : t'.factory = t.factory
  /-- The limits agree, or `t'` is the more patient one and running out of hops is excused. -/
  limits : t'.limits = t.limits ∨ t.limits.maxHops ≤ t'.limits.maxHops ∧
    ∀ ch state limit, excused (.hopLimitExceeded ch state limit)
  init : SameLabel t t' 0 0
  selects : ∀ {id id' : Nat} {ch : Char} {rule : Rule}, SameLabel t t' id id' →
    t.select id ch = .ok rule → ∃ rule', t'.select id' ch = .ok rule' ∧
      rule'.action = rule.action ∧ SameLabel t t' rule.next rule'.next
  misses : ∀ {id id' : Nat} {ch : Char} {e : ScanError}, SameLabel t t' id id' →
    t.select id ch = .error e → excused e ∨ t'.select id' ch = .error e

theorem SameLabel.label? {t t' : Table α τ} {id id' : Nat} {label : α}
    (h : SameLabel t t' id id') (labelled : t.label? id = some label) :
    t'.label? id' = some label := by
  obtain ⟨label', hl, hl'⟩ := h
  rwa [← labelled, hl]

theorem SameLabel.stateText [Described α] {t t' : Table α τ} {id id' : Nat}
    (h : SameLabel t t' id id') : t.stateText id = t'.stateText id' := by
  obtain ⟨label, hl, hl'⟩ := h
  simp [Table.stateText, hl, hl']

/-- The same call after the same calls is answered alike. -/
theorem Tracks.answer [Described α] {t t' : Table α τ} {excused : ScanError → Prop}
    (h : t'.Tracks excused t) {j j' : Journal α} (hj : j'.calls = j.calls) {held held' : String}
    (text : held' = held) (label : α) (atEnd : Bool) :
    t'.factory j'.calls ⟨label, held', atEnd⟩ = t.factory j.calls ⟨label, held, atEnd⟩ := by
  rw [h.factory, hj, text]

theorem Tracks.within [Described α] {t t' : Table α τ} {excused : ScanError → Prop}
    (h : t'.Tracks excused t) {hops : Nat} (within : hops ≤ t.limits.maxHops.toNat) :
    hops ≤ t'.limits.maxHops.toNat := by
  obtain same | ⟨more, -⟩ := h.limits
  · rwa [same]
  · exact Nat.le_trans within (UInt64.le_iff_toNat_le.mp more)

end Table

/-! ## One firing -/

/-- Machines that hold the same text in states of the same label. -/
structure Machine.Matches (t t' : Table α τ) (m m' : Machine) : Prop where
  state : t.SameLabel t' m.state m'.state
  held : m'.held = m.held

/-- Outcomes that agree but for the numbers of the states and the logs. -/
structure Outcome.Matches {β : Type} (t t' : Table α τ) (o o' : Outcome α β) : Prop where
  machine : o.machine.Matches t t' o'.machine
  result : o'.result = o.result
  calls : o'.journal.calls = o.journal.calls

namespace Machine

variable {t t' : Table α τ} {excused : ScanError → Prop} {m m' : Machine}

theorem Matches.move (h : m.Matches t t' m') {rule rule' : Rule}
    (action : rule'.action = rule.action) (ch : Char) :
    (m'.move rule' ch).held = (m.move rule ch).held := by
  simp [Machine.move, action, h.held]

variable [Described α]

/-- One firing keeps machines matched, unless it stops with an excused error. -/
theorem matches_fire (h : t'.Tracks excused t) (hm : m.Matches t t' m') (ch : Char) (hops : Nat)
    {j j' : Journal α} (hj : j'.calls = j.calls) :
    (∃ e, excused e ∧ (m.fire t ch hops j).result = .error (.error e)) ∨
      (m.fire t ch hops j).Matches t t' (m'.fire t' ch hops j') := by
  have fires := fires_fire t m ch hops j
  generalize m.fire t ch hops j = o at fires ⊢
  cases fires with
  | overLimit beyond =>
    obtain same | ⟨-, excuse⟩ := h.limits
    · right
      rw [(Fires.overLimit (t := t') (by rwa [same])).eq]
      exact ⟨hm, by rw [hm.state.stateText, same], hj⟩
    · exact .inl ⟨_, excuse _ _ _, rfl⟩
  | noRule within missing =>
    obtain excuse | missing' := h.misses hm.state missing
    · exact .inl ⟨_, excuse, rfl⟩
    · right
      rw [(Fires.noRule (h.within within) missing').eq]
      exact ⟨hm, rfl, hj⟩
  | @kept rule within selected keeps =>
    obtain ⟨rule', selected', action, next⟩ := h.selects hm.state selected
    right
    rw [(Fires.kept (h.within within) selected' (by rwa [action])).eq]
    exact ⟨⟨next, hm.move action ch⟩, by rw [action], hj⟩
  -- both call the factory for the same label, on the same text, after the same calls
  | @failed rule label fault within selected flushes labelled answer =>
    obtain ⟨rule', selected', action, next⟩ := h.selects hm.state selected
    have labelled' := hm.state.label? labelled
    have answer' := (h.answer hj (hm.move action ch) label false).trans answer
    right
    rw [(Fires.failed (h.within within) selected' (by rwa [action]) labelled' answer').eq]
    exact ⟨⟨next, hm.move action ch⟩, rfl, by simp [hj, hm.move action]⟩
  | @flushed rule label token within selected flushes labelled answer =>
    obtain ⟨rule', selected', action, next⟩ := h.selects hm.state selected
    have labelled' := hm.state.label? labelled
    have answer' := (h.answer hj (hm.move action ch) label false).trans answer
    right
    rw [(Fires.flushed (h.within within) selected' (by rwa [action]) labelled' answer').eq]
    exact ⟨⟨next, rfl⟩, by rw [action], by simp [hj, hm.move action]⟩

theorem matches_flushEnd (h : t'.Tracks excused t) (hm : m.Matches t t' m') {j j' : Journal α}
    (hj : j'.calls = j.calls) : (m.flushEnd t j).Matches t t' (m'.flushEnd t' j') := by
  obtain ⟨label, hl, hl'⟩ := hm.state
  cases answer : t.factory j.calls ⟨label, m.held, true⟩ with
  | error fault =>
    have answer' := (h.answer hj hm.held label true).trans answer
    rw [(Closes.failed hl answer).eq, (Closes.failed hl' answer').eq]
    exact ⟨hm, rfl, by simp [hj, hm.held]⟩
  | ok token =>
    have answer' := (h.answer hj hm.held label true).trans answer
    rw [(Closes.flushed hl answer).eq, (Closes.flushed hl' answer').eq]
    exact ⟨⟨h.init, rfl⟩, rfl, by simp [hj, hm.held]⟩

end Machine

/-! ## Turns and pulls -/

/-- Scans that have the same text before them and matched machines. -/
structure Scan.Matches (t t' : Table α τ) (s s' : Scan) : Prop where
  rest : s'.rest = s.rest
  parked : s'.parked = s.parked
  done : s'.done = s.done
  machine : s.machine.Matches t t' s'.machine

/-- Answers with the same item, and the same calls behind them. -/
structure Pull.Matches (t t' : Table α τ) (p p' : Pull α τ) : Prop where
  scan : p.scan.Matches t t' p'.scan
  item : p'.item = p.item
  calls : p'.journal.calls = p.journal.calls

inductive Turn.Matches (t t' : Table α τ) : Turn α τ → Turn α τ → Prop where
  | answer {p p' : Pull α τ} (pulls : p.Matches t t' p') : Matches t t' (.answer p) (.answer p')
  | onward {s s' : Scan} {j j' : Journal α} (scans : s.Matches t t' s')
      (calls : j'.calls = j.calls) : Matches t t' (.onward s j) (.onward s' j')

/-- The answer is an excused error, and the scan is done. -/
def Pull.Excused (excused : ScanError → Prop) (p : Pull α τ) : Prop :=
  ∃ e, excused e ∧ p.item = some (.error (.error e)) ∧ p.scan.done = true

namespace Scan

variable {t t' : Table α τ} {excused : ScanError → Prop} {s s' : Scan}

theorem Matches.upcoming (h : s.Matches t t' s') : s'.upcoming = s.upcoming := by
  simp [Scan.upcoming, h.rest, h.parked]

/-- Matched outcomes mean the same for the scan. -/
theorem matches_settle {o o' : Outcome α (Reaction τ)} (h : o.Matches t t' o') (rest : List Char)
    (ch : Char) (hops : Nat) :
    Turn.Matches t t' (settle rest ch hops o) (settle rest ch hops o') := by
  obtain ⟨m, j, r⟩ := o
  obtain ⟨m', j', r'⟩ := o'
  obtain ⟨hm, rfl, hc⟩ := h
  rcases r' with stop | (token | token)
  · exact .answer ⟨⟨rfl, rfl, rfl, hm⟩, rfl, hc⟩
  · cases token with
    | none => exact .onward ⟨rfl, rfl, rfl, hm⟩ hc
    | some token => exact .answer ⟨⟨rfl, rfl, rfl, hm⟩, rfl, hc⟩
  · by_cases hlt : hops < hopCeiling
    · simp only [settle, after, if_pos hlt]
      cases token with
      | none => exact .onward ⟨rfl, rfl, rfl, hm⟩ hc
      | some token => exact .answer ⟨⟨rfl, rfl, rfl, hm⟩, rfl, hc⟩
    · simp only [settle, after, if_neg hlt]
      exact .answer ⟨⟨rfl, rfl, rfl, hm⟩, rfl, hc⟩

variable [Described α]

theorem matches_finish (h : t'.Tracks excused t) {m m' : Machine} (hm : m.Matches t t' m')
    {j j' : Journal α} (hj : j'.calls = j.calls) :
    (finish t m j).Matches t t' (finish t' m' j') := by
  obtain ⟨machine, result, calls⟩ := Machine.matches_flushEnd h hm hj
  exact ⟨⟨rfl, rfl, rfl, machine⟩, by simp [finish, result], calls⟩

theorem matches_turn (h : t'.Tracks excused t) (hs : s.Matches t t' s') {j j' : Journal α}
    (hj : j'.calls = j.calls) :
    (∃ p, turn t s j = .answer p ∧ p.Excused excused) ∨
      Turn.Matches t t' (turn t s j) (turn t' s' j') := by
  cases hd : s.done with
  | true =>
    right
    simp only [turn, hs.done, hd, if_true]
    exact .answer ⟨hs, rfl, hj⟩
  | false =>
    have hd' : s'.done = false := hs.done.trans hd
    cases hu : s.upcoming with
    | none =>
      right
      rw [turn_end t j hd hu, turn_end t' j' hd' (hs.upcoming.trans hu)]
      exact .answer (matches_finish h hs.machine hj)
    | some up =>
      obtain ⟨ch, hops, rest⟩ := up
      rw [turn_up t j hd hu, turn_up t' j' hd' (hs.upcoming.trans hu)]
      obtain ⟨e, excuse, stops⟩ | outcomes := Machine.matches_fire h hs.machine ch hops hj
      · rcases fired : s.machine.fire t ch hops j with ⟨m, k, r⟩
        obtain rfl : r = .error (.error e) := by rwa [fired] at stops
        exact .inl ⟨_, rfl, e, excuse, rfl, rfl⟩
      · exact .inr (matches_settle outcomes rest ch hops)

/-- Pulls of matched scans give the same item, unless the first one ends its scan with
an excused error. -/
theorem matches_pull (h : t'.Tracks excused t) (hs : s.Matches t t' s') {j j' : Journal α}
    (hj : j'.calls = j.calls) :
    (pull t s j).Excused excused ∨ (pull t s j).Matches t t' (pull t' s' j') := by
  induction s using wellFounded_less.induction generalizing s' j j' with
  | _ s ih =>
    obtain ⟨p, answers, excuse⟩ | turns := matches_turn h hs hj
    · exact .inl (pull_of_answer answers ▸ excuse)
    · rw [pull_eq_turn t, pull_eq_turn t']
      have less := turn_less t s j
      have undone := turns_turn t s j
      generalize turn t s j = u at turns less undone
      generalize turn t' s' j' = u' at turns
      cases turns with
      | answer pulls => exact .inr pulls
      | onward scans calls =>
        cases undone with
        | quiet hd up fired next silent => exact ih _ (less hd) scans calls

end Scan

/-! ## Whole scans -/

/-- The items and calls of two scans, the second of which tracks the first. -/
structure Transcript.Tracks (y : Transcript α τ) (excused : ScanError → Prop)
    (x : Transcript α τ) : Prop where
  /-- Without an excused error at the end they are the same. -/
  same : (∀ e, excused e → x.items.getLast? ≠ some (.error (.error e))) →
    y.items = x.items ∧ y.journal.calls = x.journal.calls
  /-- Up to an excused error they are the same. -/
  before : ∀ e items, excused e → x.items = items ++ [.error (.error e)] → items <+: y.items

theorem Transcript.Tracks.cons {excused : ScanError → Prop} {x y : Transcript α τ}
    (h : y.Tracks excused x) (item : Except Stop τ) :
    Transcript.Tracks ⟨item :: y.items, y.journal⟩ excused ⟨item :: x.items, x.journal⟩ := by
  constructor
  · intro last
    have last' : ∀ e, excused e → x.items.getLast? ≠ some (.error (.error e)) := by
      intro e excuse stops
      exact last e excuse (by simp [List.getLast?_cons, stops])
    obtain ⟨items, calls⟩ := h.same last'
    exact ⟨congrArg (item :: ·) items, calls⟩
  · intro e items excuse stops
    cases items with
    | nil => exact List.nil_prefix
    | cons first items =>
      obtain ⟨rfl, stops'⟩ := List.cons.inj stops
      exact List.prefix_cons_inj _ |>.mpr (h.before e items excuse stops')

namespace Scan

variable [Described α] {t t' : Table α τ} {excused : ScanError → Prop}

theorem tracks_transcript (h : t'.Tracks excused t) {s s' : Scan} (hs : s.Matches t t' s')
    {j j' : Journal α} (hj : j'.calls = j.calls) :
    (transcript t' s' j').Tracks excused (transcript t s j) := by
  induction s using wellFounded_less.induction generalizing s' j j' with
  | _ s ih =>
    have pulls := matches_pull h hs hj
    rw [transcript_eq t, transcript_eq t']
    rcases hp : pull t s j with ⟨s₁, j₁, item⟩
    rcases hp' : pull t' s' j' with ⟨s₁', j₁', item'⟩
    rw [hp, hp'] at pulls
    obtain ⟨e, excuse, rfl, hd⟩ | ⟨scans, rfl, calls⟩ := pulls
    · -- the excused error is the last item, and there are none before it
      simp only [transcript_done t j₁ hd]
      constructor
      · intro last
        exact absurd rfl (last e excuse)
      · intro e' items _ stops
        have short : items.length + 1 = 1 := by simpa using congrArg List.length stops.symm
        rw [List.eq_nil_of_length_eq_zero (Nat.succ.inj short)]
        exact List.nil_prefix
    · cases item' with
      | none => exact ⟨fun _ => ⟨rfl, calls⟩, fun e items _ stops => by simp at stops⟩
      | some item => exact (ih s₁ (less_of_pull hp) scans calls).cons item

theorem matches_nth (h : t'.Tracks (fun _ => False) t) {s s' : Scan} (hs : s.Matches t t' s')
    {j j' : Journal α} (hj : j'.calls = j.calls) (k : Nat) :
    (nth t k s j).Matches t t' (nth t' k s' j') := by
  induction k generalizing s s' j j' with
  | zero => exact (matches_pull h hs hj).resolve_left (by rintro ⟨e, excuse, -⟩; exact excuse)
  | succ k ih =>
    obtain ⟨e, excuse, -⟩ | pulls := matches_pull h hs hj
    · exact excuse.elim
    · rw [nth_succ, nth_succ]
      exact ih pulls.scan pulls.calls

/-- A consumer that pulls the one scan is shown what it is shown by the other. -/
theorem alike_serve (h : t'.Tracks (fun _ => False) t) (sink : Sink τ) {s s' : Scan}
    (hs : s.Matches t t' s') (received : Array τ) {j j' : Journal α} (hj : j'.calls = j.calls) :
    (s'.serve t' sink received j').Alike (s.serve t sink received j) := by
  induction s using wellFounded_less.induction generalizing s' received j j' with
  | _ s ih =>
    have pulls := matches_pull h hs hj
    rw [serve_eq t, serve_eq t']
    rcases hp : pull t s j with ⟨s₁, j₁, item⟩
    rcases hp' : pull t' s' j' with ⟨s₁', j₁', item'⟩
    rw [hp, hp'] at pulls
    obtain ⟨e, excuse, -⟩ | ⟨scans, rfl, calls⟩ := pulls
    · exact excuse.elim
    · rcases item' with _ | stop | token
      · exact ⟨rfl, rfl, calls⟩
      · exact ⟨rfl, rfl, calls⟩
      · cases verdict : sink (received.push token) with
        | false => simpa [verdict] using ⟨rfl, rfl, calls⟩
        | true =>
          have more := ih s₁ (less_of_pull hp) scans (received.push token) calls
          simpa [verdict] using more

/-- Scans of one text start matched. -/
theorem matches_start (h : t'.Tracks excused t) (text : String) (j : Journal α) :
    (start text j).1.Matches t t' (start text j).1 :=
  ⟨rfl, rfl, rfl, h.init, rfl⟩

end Scan

namespace Delivery.Alike

variable {d d' d'' : Delivery α τ}

theorem symm (h : d.Alike d') : d'.Alike d :=
  ⟨h.received.symm, h.result.symm, h.calls.symm⟩

theorem trans (h : d.Alike d') (h' : d'.Alike d'') : d.Alike d'' :=
  ⟨h.received.trans h'.received, h.result.trans h'.result, h.calls.trans h'.calls⟩

end Delivery.Alike

namespace Table

variable [Described α] {t t' : Table α τ}

/-- The answer to the pull of `text` that comes after `k` others. -/
def nth (t : Table α τ) (text : String) (k : Nat) (j : Journal α) : Pull α τ :=
  Scan.nth t k (Scan.start text j).1 (Scan.start text j).2

theorem matches_nth (h : t'.Tracks (fun _ => False) t) (text : String) (k : Nat) (j : Journal α) :
    (t.nth text k j).Matches t t' (t'.nth text k j) :=
  Scan.matches_nth h (Scan.matches_start h text j) rfl k

theorem tracks_transcript {excused : ScanError → Prop} (h : t'.Tracks excused t) (text : String)
    (j : Journal α) : (t'.transcript text j).Tracks excused (t.transcript text j) :=
  Scan.tracks_transcript h (Scan.matches_start h text j) rfl

/-- Pushing the tokens of a text shows a consumer the same over both tables. -/
theorem alike_stream (h : t'.Tracks (fun _ => False) t) (hl : t.limits.maxHops.toNat < hopCeiling)
    (text : String) (sink : Sink τ) (j : Journal α) :
    (t'.stream text sink j).Alike (t.stream text sink j) := by
  have hl' : t'.limits.maxHops.toNat < hopCeiling := by
    obtain same | ⟨-, excuse⟩ := h.limits
    · rwa [same]
    · exact (excuse 'a' "" 0).elim
  have pulls := resume_alike t hl sink (Scan.start text j).1 #[] j (Scan.start text j).2 rfl rfl
  have pulls' := resume_alike t' hl' sink (Scan.start text j).1 #[] j (Scan.start text j).2 rfl rfl
  have serves := Scan.alike_serve h sink (Scan.matches_start h text j) #[] (rfl :
    (Scan.start text j).2.calls = (Scan.start text j).2.calls)
  rw [stream_eq_resume, stream_eq_resume]
  exact (pulls'.trans serves).trans pulls.symm

end Table

end TableLexer
