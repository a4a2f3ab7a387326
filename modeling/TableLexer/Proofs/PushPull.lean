import Mathlib.Control.Monad.Basic
import TableLexer.Proofs.Turns

/-!
# Pushing and pulling agree

`Scan.serve` is a consumer that pulls a scan by hand: it takes one token after the
other until it refuses one, an item is a failure, or nothing is left.
`Table.resume` is the pushing driver taken up in the middle of a text. The two are
compared turn by turn: both fire the same rule, and a token is either handed on by
both or missing for both. Only the logs differ.
-/

namespace TableLexer

variable {α τ : Type}

/-- The consumer wants more after each of the tokens, having received `received`. -/
def Accepts (sink : Sink τ) (received : Array τ) : List τ → Prop
  | [] => True
  | token :: tokens =>
    sink (received.push token) = true ∧ Accepts sink (received.push token) tokens

/-- Agreement of two deliveries in what a consumer and a factory can observe. -/
structure Delivery.Alike (d d' : Delivery α τ) : Prop where
  received : d.received = d'.received
  result : d.result = d'.result
  calls : d.journal.calls = d'.journal.calls

/-- A delivery of exactly these tokens, with this result and after these calls. -/
structure Delivery.Shows (d : Delivery α τ) (tokens : List τ) (result : Except Stop Bool)
    (calls : Array (Call α)) : Prop where
  received : d.received = tokens.toArray
  result : d.result = result
  calls : d.journal.calls = calls

theorem Delivery.Alike.shows_iff {d d' : Delivery α τ} (h : d.Alike d') {tokens : List τ}
    {result : Except Stop Bool} {calls : Array (Call α)} :
    d.Shows tokens result calls ↔ d'.Shows tokens result calls := by
  constructor
  · rintro ⟨hr, hv, hc⟩
    exact ⟨h.received ▸ hr, h.result ▸ hv, h.calls ▸ hc⟩
  · rintro ⟨hr, hv, hc⟩
    exact ⟨h.received ▸ hr, h.result ▸ hv, h.calls ▸ hc⟩

variable [Described α]

namespace Scan

/-- How the pulls of a scan end for a consumer: with the tokens it has received, its
result, and all calls made up to then. -/
inductive Served (t : Table α τ) (sink : Sink τ) (s : Scan) (j : Journal α) :
    List τ → Except Stop Bool → Array (Call α) → Prop where
  /-- The pulls give tokens, and the last of them is the first one refused. -/
  | refused {tokens : List τ} {token : τ} {s' : Scan} {j' : Journal α}
      (yields : Yields t s j (tokens ++ [token]) s' j') (accepts : Accepts sink #[] tokens)
      (refuses : sink (tokens ++ [token]).toArray = false) :
    Served t sink s j (tokens ++ [token]) (.ok false) j'.calls
  /-- All tokens before a failing pull are accepted. -/
  | failed {tokens : List τ} {stop : Stop} {s' s'' : Scan} {j' j'' : Journal α}
      (yields : Yields t s j tokens s' j') (accepts : Accepts sink #[] tokens)
      (fails : pull t s' j' = ⟨s'', j'', some (.error stop)⟩) :
    Served t sink s j tokens (.error stop) j''.calls
  /-- All tokens up to the end are accepted. -/
  | exhausted {tokens : List τ} {s' s'' : Scan} {j' j'' : Journal α}
      (yields : Yields t s j tokens s' j') (accepts : Accepts sink #[] tokens)
      (ends : pull t s' j' = ⟨s'', j'', none⟩) :
    Served t sink s j tokens (.ok true) j''.calls

/-- Pull a scan for a consumer. -/
def serve (t : Table α τ) (sink : Sink τ) (s : Scan) (received : Array τ) (j : Journal α) :
    Delivery α τ :=
  match pullLess t s j with
  | ⟨⟨s, j, none⟩, _⟩ => ⟨s.machine, j, received, .ok true⟩
  | ⟨⟨s, j, some (.error stop)⟩, _⟩ => ⟨s.machine, j, received, .error stop⟩
  | ⟨⟨s, j, some (.ok token)⟩, _⟩ =>
    if sink (received.push token) then serve t sink s (received.push token) j
    else ⟨s.machine, j, received.push token, .ok false⟩
termination_by (s.ahead, s.slack)
decreasing_by
  rename_i less _
  exact (less rfl).lex

theorem serve_eq (t : Table α τ) (sink : Sink τ) (s : Scan) (received : Array τ)
    (j : Journal α) :
    serve t sink s received j =
      match pull t s j with
      | ⟨s, j, none⟩ => ⟨s.machine, j, received, .ok true⟩
      | ⟨s, j, some (.error stop)⟩ => ⟨s.machine, j, received, .error stop⟩
      | ⟨s, j, some (.ok token)⟩ =>
        if sink (received.push token) then serve t sink s (received.push token) j
        else ⟨s.machine, j, received.push token, .ok false⟩ := by
  rw [serve]
  rcases h : pull t s j with ⟨s', j', _ | ⟨_ | _⟩⟩ <;> simp [pullLess, h]

/-- A turn without an answer is not seen by the consumer. -/
theorem serve_onward {t : Table α τ} {s s' : Scan} {j j' : Journal α}
    (h : turn t s j = .onward s' j') (sink : Sink τ) (received : Array τ) :
    serve t sink s received j = serve t sink s' received j' := by
  rw [serve_eq, serve_eq t sink s', pull_of_onward h]

/-- Tokens that the consumer accepts bring it to where they end. -/
theorem serve_of_yields {t : Table α τ} {sink : Sink τ} {s s' : Scan} {j j' : Journal α}
    {tokens : List τ} (hy : Yields t s j tokens s' j') (received : Array τ)
    (ha : Accepts sink received tokens) :
    serve t sink s received j = serve t sink s' (received ++ tokens.toArray) j' := by
  induction hy generalizing received with
  | nil s j => simp
  | cons head tail ih =>
    rw [serve_eq, head]
    simp only [ha.1, if_true]
    rw [ih _ ha.2, List.push_append_toArray]

/-- Collecting tokens is serving a consumer that wants everything. -/
theorem collect_eq_serve (t : Table α τ) (s : Scan) (j : Journal α) (received : Array τ) :
    collect t s j received =
      ((serve t (fun _ => true) s received j).result.map
          fun _ => (serve t (fun _ => true) s received j).received,
        (serve t (fun _ => true) s received j).journal) := by
  induction s using wellFounded_less.induction generalizing j received with
  | _ s ih =>
    rw [collect_eq, serve_eq]
    rcases h : pull t s j with ⟨s', j', _ | stop | token⟩
    · rfl
    · rfl
    · simpa using ih s' (less_of_pull h) j' (received.push token)

/-- A consumer accepts some tokens, and the pull after them decides how it ends. -/
theorem serve_ends (t : Table α τ) (sink : Sink τ) (s : Scan) (received : Array τ)
    (j : Journal α) :
    ∃ tokens s' j', Yields t s j tokens s' j' ∧ Accepts sink received tokens ∧
      ∀ token, (pull t s' j').item = some (.ok token) →
        sink ((received ++ tokens.toArray).push token) = false := by
  induction s using wellFounded_less.induction generalizing received j with
  | _ s ih =>
    rcases h : pull t s j with ⟨s', j', _ | stop | token⟩
    · exact ⟨[], s, j, .nil s j, trivial, by simp [h]⟩
    · exact ⟨[], s, j, .nil s j, trivial, by simp [h]⟩
    · cases verdict : sink (received.push token) with
      | false =>
        refine ⟨[], s, j, .nil s j, trivial, ?_⟩
        intro token' hitem
        simp only [h, Option.some.injEq, Except.ok.injEq] at hitem
        simpa [← hitem] using verdict
      | true =>
        obtain ⟨tokens, s'', j'', hy, ha, hlast⟩ :=
          ih s' (less_of_pull h) (received.push token) j'
        refine ⟨token :: tokens, s'', j'', .cons h hy, ⟨verdict, ha⟩, ?_⟩
        intro token' hitem
        rw [← List.push_append_toArray]
        exact hlast token' hitem

theorem served_serve (t : Table α τ) (sink : Sink τ) (s : Scan) (j : Journal α) :
    ∃ tokens, (serve t sink s #[] j).received = tokens.toArray ∧
      Served t sink s j tokens (serve t sink s #[] j).result
        (serve t sink s #[] j).journal.calls := by
  obtain ⟨tokens, s', j', hy, ha, hlast⟩ := serve_ends t sink s #[] j
  rw [serve_of_yields hy #[] ha, Array.empty_append, serve_eq]
  rcases hp : pull t s' j' with ⟨s'', j'', _ | stop | token⟩
  · exact ⟨tokens, rfl, .exhausted hy ha hp⟩
  · exact ⟨tokens, rfl, .failed hy ha hp⟩
  · have refuses : sink (tokens.toArray.push token) = false := by
      simpa using hlast token (by rw [hp])
    simp only [refuses, Bool.false_eq_true, if_false]
    exact ⟨tokens ++ [token], by simp, .refused (hy.snoc hp) ha (by simpa using refuses)⟩

/-- The consumer observes just what the sequence of pulls says. -/
theorem serve_shows_iff (t : Table α τ) (sink : Sink τ) (s : Scan) (j : Journal α)
    (tokens : List τ) (result : Except Stop Bool) (calls : Array (Call α)) :
    (serve t sink s #[] j).Shows tokens result calls ↔ Served t sink s j tokens result calls := by
  constructor
  · rintro ⟨hr, rfl, rfl⟩
    obtain ⟨tokens', hr', served⟩ := served_serve t sink s j
    have same : tokens' = tokens := by simpa using hr'.symm.trans hr
    exact same ▸ served
  · intro served
    cases served with
    | @refused tokens token s' j' yields accepts refuses =>
      obtain ⟨s'', j'', hy, hlast⟩ := yields.split_last
      rw [serve_of_yields hy #[] accepts, Array.empty_append, serve_eq, hlast]
      have refuses' : sink (tokens.toArray.push token) = false := by simpa using refuses
      simp only [refuses', Bool.false_eq_true, if_false]
      exact ⟨by simp, rfl, rfl⟩
    | failed yields accepts fails =>
      rw [serve_of_yields yields #[] accepts, Array.empty_append, serve_eq, fails]
      exact ⟨rfl, rfl, rfl⟩
    | exhausted yields accepts ends =>
      rw [serve_of_yields yields #[] accepts, Array.empty_append, serve_eq, ends]
      exact ⟨rfl, rfl, rfl⟩

end Scan

namespace Table

/-- Go on after a delivery if the consumer wants more. -/
def proceed (d : Delivery α τ) (more : Machine → Journal α → Array τ → Delivery α τ) :
    Delivery α τ :=
  match d with
  | ⟨m, j, received, .ok true⟩ => more m j received
  | ⟨m, j, received, .ok false⟩ => ⟨m, j.log .downstreamStopped, received, .ok false⟩
  | stopped => stopped

/-- Push the tokens of `chars`, which come to the machine as it is. -/
def push (t : Table α τ) (sink : Sink τ) (m : Machine) (j : Journal α) (received : Array τ)
    (chars : List Char) : Delivery α τ :=
  proceed (Machine.feedAll t sink m received j chars).1 fun m j received =>
    m.close t sink received j

theorem push_cons (t : Table α τ) (sink : Sink τ) (m : Machine) (j : Journal α)
    (received : Array τ) (ch : Char) (rest : List Char) :
    push t sink m j received (ch :: rest) =
      proceed (m.feedFrom t sink ch 0 received j) fun m j received =>
        push t sink m j received rest := by
  unfold push
  rw [Machine.feedAll, Machine.feed]
  rcases m.feedFrom t sink ch 0 received j with ⟨m', j', received', stop | _ | _⟩ <;> rfl

/-- Push the tokens of what is left of a scan that is not done. -/
def resume (t : Table α τ) (sink : Sink τ) (s : Scan) (received : Array τ) (j : Journal α) :
    Delivery α τ :=
  match s.upcoming with
  | none => s.machine.close t sink received j
  | some (ch, hops, rest) =>
    proceed (s.machine.feedFrom t sink ch hops received j) fun m j received =>
      push t sink m j received rest

theorem resume_unparked (t : Table α τ) (sink : Sink τ) (m : Machine) (rest : List Char)
    (received : Array τ) (j : Journal α) :
    resume t sink { rest, machine := m } received j = push t sink m j received rest := by
  cases rest with
  | nil => rfl
  | cons ch rest =>
    rw [push_cons]
    rfl

theorem stream_eq_resume (t : Table α τ) (text : String) (sink : Sink τ) (j : Journal α) :
    t.stream text sink j = resume t sink { rest := normalize text.toList } #[] j := by
  rw [resume_unparked]
  rfl

theorem resume_up {t : Table α τ} (sink : Sink τ) {s : Scan} (received : Array τ)
    (j : Journal α) {ch : Char} {hops : Nat} {rest : List Char}
    (hu : s.upcoming = some (ch, hops, rest)) :
    resume t sink s received j =
      proceed (s.machine.feedFrom t sink ch hops received j) fun m j received =>
        push t sink m j received rest := by
  simp only [resume, hu]

theorem resume_error {t : Table α τ} (sink : Sink τ) {s : Scan} (received : Array τ)
    {j k : Journal α} {ch : Char} {hops : Nat} {rest : List Char} {m : Machine} {stop : Stop}
    (hu : s.upcoming = some (ch, hops, rest))
    (ho : s.machine.fire t ch hops j = ⟨m, k, .error stop⟩) :
    resume t sink s received j = ⟨m, k, received, .error stop⟩ := by
  rw [resume_up sink received j hu, Machine.feedFrom, ho]
  rfl

/-- One turn of the pushing driver. -/
theorem resume_ok {t : Table α τ} (sink : Sink τ) {s s' : Scan} (received : Array τ)
    {j k : Journal α} {ch : Char} {hops : Nat} {rest : List Char} {m : Machine}
    {reaction : Reaction τ} (hu : s.upcoming = some (ch, hops, rest))
    (ho : s.machine.fire t ch hops j = ⟨m, k, .ok reaction⟩)
    (hs : Scan.after rest ch hops m reaction = some s') :
    resume t sink s received j =
      match reaction.token with
      | none => resume t sink s' received k
      | some token =>
        if sink (received.push token) then resume t sink s' (received.push token) k
        else ⟨m, k.log .downstreamStopped, received.push token, .ok false⟩ := by
  rw [resume_up sink received j hu, Machine.feedFrom, ho]
  obtain ⟨token, rfl, rfl⟩ | ⟨token, rfl, hlt, rfl⟩ := Scan.after_eq_some hs
  · cases token with
    | none => exact (resume_unparked t sink m rest received k).symm
    | some token =>
      have more := resume_unparked t sink m rest (received.push token) k
      cases verdict : sink (received.push token) with
      | false => simp [Machine.deliver, Reaction.token, verdict, proceed]
      | true => simp [Machine.deliver, Reaction.token, verdict, proceed, more]
  · cases token with
    | none =>
      simp only [Machine.deliver, Reaction.token, hlt, if_true]
      rfl
    | some token =>
      cases verdict : sink (received.push token) with
      | false => simp [Machine.deliver, Reaction.token, verdict, proceed]
      | true =>
        simp only [Machine.deliver, Reaction.token, verdict, hlt, if_true]
        rfl

/-- The end of the text is the same for both drivers: the flushed token, if any, is
the last one. -/
theorem close_alike (t : Table α τ) (sink : Sink τ) {s : Scan} (received : Array τ)
    {j j' : Journal α} (hd : s.done = false) (hu : s.upcoming = none)
    (hj : j.calls = j'.calls) :
    (s.machine.close t sink received j).Alike (s.serve t sink received j') := by
  have alike := Machine.flushEnd_alike t s.machine hj
  rw [Scan.serve_eq, Scan.pull_of_answer (Scan.turn_end t j' hd hu)]
  unfold Machine.close Scan.finish
  generalize s.machine.flushEnd t j = o at alike ⊢
  generalize s.machine.flushEnd t j' = o' at alike ⊢
  obtain ⟨m, k, r⟩ := o
  obtain ⟨m', k', r'⟩ := o'
  obtain ⟨rfl, rfl, hc⟩ := alike
  rcases r with stop | _ | token
  · exact ⟨rfl, rfl, hc⟩
  · exact ⟨rfl, rfl, hc⟩
  · cases verdict : sink (received.push token) with
    | false => simpa [Machine.deliver, verdict] using ⟨rfl, rfl, hc⟩
    | true =>
      dsimp only
      rw [verdict, if_pos rfl, Scan.serve_eq, Scan.pull_done _ _ rfl]
      simpa [Machine.deliver, verdict] using ⟨rfl, rfl, hc⟩

/-- Both drivers see the same tokens, end alike and make the same calls, from
wherever the scan stands. -/
theorem resume_alike (t : Table α τ) (hl : t.limits.maxHops.toNat < hopCeiling) (sink : Sink τ)
    (s : Scan) (received : Array τ) (j j' : Journal α) (hd : s.done = false)
    (hj : j.calls = j'.calls) :
    (resume t sink s received j).Alike (s.serve t sink received j') := by
  induction s using Scan.wellFounded_less.induction generalizing received j j' with
  | _ s ih =>
    have less := Scan.turn_less t s j' hd
    have turns := Scan.turns_turn t s j'
    generalize hturn : Scan.turn t s j' = u at less turns
    cases turns with
    | idle done => exact absurd (hd.symm.trans done) (by decide)
    | ended _ nothing =>
      rw [resume, nothing]
      exact close_alike t sink received hd nothing hj
    | failed _ up fired =>
      obtain ⟨k, fired', hc⟩ := (Machine.fire_alike t s.machine _ _ hj).exists_eq fired
      rw [resume_error sink received up fired', Scan.serve_eq, Scan.pull_of_answer hturn]
      exact ⟨rfl, rfl, hc⟩
    | overflowed _ up fired stuck =>
      -- the limit stops the character before the counter can
      have within := Machine.within_of_fire_ok fired
      obtain ⟨s', next⟩ := Scan.exists_after _ _ _ _ (Nat.lt_of_le_of_lt within hl)
      exact absurd (stuck.symm.trans next) (by simp)
    | quiet _ up fired next silent =>
      obtain ⟨k, fired', hc⟩ := (Machine.fire_alike t s.machine _ _ hj).exists_eq fired
      rw [resume_ok sink received up fired' next, silent, Scan.serve_onward hturn]
      exact ih _ less received k _ (Scan.done_after next) hc
    | @gave _ _ _ _ _ _ _ token _ up fired next given =>
      obtain ⟨k, fired', hc⟩ := (Machine.fire_alike t s.machine _ _ hj).exists_eq fired
      rw [resume_ok sink received up fired' next, given, Scan.serve_eq,
        Scan.pull_of_answer hturn]
      cases verdict : sink (received.push token) with
      | false => simpa [verdict] using ⟨rfl, rfl, hc⟩
      | true =>
        have more := ih _ less (received.push token) k _ (Scan.done_after next) hc
        simpa [verdict, Turn.scan] using more

/-- Pushing the tokens of a text shows a consumer exactly what pulling them does: the
same tokens up to the first one it refuses, the same end, and the same calls of the
factory until then. -/
theorem stream_agrees_with_pulls (t : Table α τ) (hl : t.limits.maxHops.toNat < hopCeiling)
    (text : String) (sink : Sink τ) (j : Journal α) (tokens : List τ)
    (result : Except Stop Bool) (calls : Array (Call α)) :
    (t.stream text sink j).Shows tokens result calls ↔
      Scan.Served t sink (Scan.start text j).1 (Scan.start text j).2 tokens result calls := by
  have alike := resume_alike t hl sink (Scan.start text j).1 #[] j (Scan.start text j).2 rfl rfl
  rw [← Scan.serve_shows_iff, stream_eq_resume]
  exact alike.shows_iff

/-- A consumer that refuses the first word is shown nothing after it. -/
theorem stream_agrees_with_pulls_word :
    wordTable.limits.maxHops.toNat < hopCeiling ∧
      Scan.Served wordTable (fun _ => false) (Scan.start "ab cd" ({} : Journal Nat)).1
        (Scan.start "ab cd" {}).2 ["ab"] (.ok false) #[⟨1, "ab", false⟩] := by
  have hl : wordTable.limits.maxHops.toNat < hopCeiling := by decide
  refine ⟨hl, (stream_agrees_with_pulls wordTable hl _ _ _ _ _ _).1 ?_⟩
  constructor <;> decide +kernel

end Table

end TableLexer
