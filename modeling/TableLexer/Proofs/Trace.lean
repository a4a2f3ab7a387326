import Mathlib.Data.List.Chain
import TableLexer.Proofs.Accounting
import TableLexer.Proofs.Closure
import TableLexer.Proofs.Transcripts

/-!
# The log of a scan

The log tells the run that it was written in. `Trace` says what can be read off the
events of a scan: the firings make a path through the table, with the hops of each
character counted from 0; the characters that they consume are those of the text; a
firing is followed by a flush if its action says so; the flushes are the calls of the
factory; and a failure is the last event. Each firing puts one event or two before
the log of what is left of the scan, and keeps all of this.
-/

namespace TableLexer

variable {α τ : Type}

/-! ## Reading a log -/

/-- What the log says of a rule that has fired. -/
structure Firing where
  ch : Char
  origin : Nat
  target : Nat
  action : Action
  hops : Nat

namespace Firing

/-- The firing `g` may come next after `f`: in the state that `f` leads to, on the same
character with one more hop if `f` has not consumed it, else on a fresh one. -/
structure Leads (f g : Firing) : Prop where
  state : g.origin = f.target
  again : f.action.isZeroWidth = true → g.ch = f.ch ∧ g.hops = f.hops + 1
  fresh : f.action.isZeroWidth = false → g.hops = 0

def event (f : Firing) : Event α := .fired f.ch f.origin f.target f.action f.hops

/-- The character that is used up, if any. -/
def consumed (f : Firing) : List Char := (if f.action.isZeroWidth then none else some f.ch).toList

end Firing

namespace Event

def firing? : Event α → Option Firing
  | .fired ch origin target action hops => some ⟨ch, origin, target, action, hops⟩
  | _ => none

def isFlush : Event α → Bool
  | .flushed .. => true
  | _ => false

/-- The scan has stopped with an error. -/
def isFailure : Event α → Bool
  | .hopLimitExceeded .. | .ruleMissing .. => true
  | _ => false

/-- The event of a call and its answer. -/
def ofExchange (exchange : Call α × Except Fault (Option τ)) : Event α :=
  .flushed exchange.1.state exchange.1.text exchange.1.atEnd
    (match exchange.2 with
      | .ok token => token.isSome
      | .error _ => false)

variable [Described α]

/-- A flush that is printed as one before the end of the input. -/
def IsInnerFlush (e : Event α) : Prop := e.title = "Flush" ∧ ("end", .flag false) ∈ e.details

/-- What may come right after an event. A firing whose action flushes is followed by
the flush for the state it is left from, and no other firing is followed by a flush
before the end. -/
def Precedes (t : Table α τ) (e : Event α) (next : Option (Event α)) : Prop :=
  ∀ f, e.firing? = some f →
    (f.action.flushes = true → ∃ label flush, t.label? f.origin = some label ∧
      next = some flush ∧ flush.IsInnerFlush ∧
      ("state", .text (describe (some label))) ∈ flush.details) ∧
    (f.action.flushes = false → ∀ flush, next = some flush → ¬ flush.IsInnerFlush)

end Event

/-- The firings among the events, in order. -/
def firings (events : List (Event α)) : List Firing := events.filterMap Event.firing?

/-- The items of a scan that has not come to its end. -/
def Fails (items : List (Except Stop τ)) : Prop := ∃ stop, .error stop ∈ items

/-- The last event, and no other, is a failure. -/
def FailsAtEnd (events : List (Event α)) : Prop :=
  ∃ before last, events = before ++ [last] ∧ last.isFailure = true ∧
    ∀ e ∈ before, e.isFailure = false

/-- What the events of a scan tell, from the state `origin` on, with `chars` to be read
and after the calls `earlier`, when the scan makes these calls and gives these items. -/
structure Trace [Described α] (t : Table α τ) (origin : Nat) (chars : List Char)
    (earlier : Array (Call α)) (calls : List (Call α)) (items : List (Except Stop τ))
    (events : List (Event α)) : Prop where
  /-- The firings are a path from the state. -/
  start : ∀ f ∈ (firings events).head?, f.origin = origin
  path : (firings events).IsChain Firing.Leads
  /-- The characters consumed are the first ones, and all of them if nothing fails. -/
  chars : ∃ left, chars = consumed events ++ left ∧ (¬ Fails items → left = [])
  order : ∀ (i : Nat) (e : Event α), events[i]? = some e → e.Precedes t events[i + 1]?
  /-- The flushes are the calls, and tell whether a token came back. -/
  flushes : events.filter Event.isFlush = (t.factory.dialogue earlier calls).map Event.ofExchange
  fails : Fails items → FailsAtEnd events
  succeeds : ¬ Fails items → ∀ e ∈ events, e.isFailure = false

/-! ## Putting events before a log -/

@[simp] theorem firings_event (f : Firing) (events : List (Event α)) :
    firings (f.event :: events) = f :: firings events := rfl

@[simp] theorem toList_consumed?_event (f : Firing) :
    (f.event : Event α).consumed?.toList = f.consumed := rfl

@[simp] theorem consumed?_flushed (state : α) (text : String) (atEnd emitted : Bool) :
    (Event.flushed state text atEnd emitted).consumed? = none := rfl

theorem FailsAtEnd.cons {e : Event α} {events : List (Event α)} (he : e.isFailure = false)
    (h : FailsAtEnd events) : FailsAtEnd (e :: events) := by
  obtain ⟨before, last, rfl, fails, clean⟩ := h
  exact ⟨e :: before, last, rfl, fails, List.forall_mem_cons.mpr ⟨he, clean⟩⟩

/-- Tokens do not make a scan fail. -/
theorem fails_tokens_append {tokens : List τ} {items : List (Except Stop τ)} :
    Fails (tokens.map .ok ++ items) ↔ Fails items := by
  simp [Fails]

theorem Factory.dialogue_cons {factory : Factory α τ} (earlier : Array (Call α)) (call : Call α)
    (calls : List (Call α)) :
    factory.dialogue earlier (call :: calls) =
      (call, factory earlier call) :: factory.dialogue (earlier.push call) calls := rfl

variable [Described α]

theorem isInnerFlush_flushed (state : α) (text : String) (atEnd emitted : Bool) :
    (Event.flushed state text atEnd emitted).IsInnerFlush ↔ atEnd = false := by
  simp [Event.IsInnerFlush, Event.title, Event.details, eq_comm]

/-- Only a flush is printed as one. -/
theorem Event.not_isInnerFlush {e : Event α} (h : e.isFlush = false) : ¬ e.IsInnerFlush := by
  rintro ⟨title, -⟩
  cases e with
  | flushed => cases h
  | _ => exact absurd title (by simp [Event.title])

theorem Event.precedes_of_firing?_eq_none {t : Table α τ} {e : Event α} (h : e.firing? = none)
    (next : Option (Event α)) : e.Precedes t next := by
  intro f hf
  cases h.symm.trans hf

theorem precedes_cons {t : Table α τ} {e : Event α} {events : List (Event α)}
    (head : e.Precedes t events.head?)
    (tail : ∀ (i : Nat) (e : Event α), events[i]? = some e → e.Precedes t events[i + 1]?)
    (i : Nat) (e' : Event α) (h : (e :: events)[i]? = some e') :
    e'.Precedes t (e :: events)[i + 1]? := by
  cases i with
  | zero =>
    cases h
    rw [List.getElem?_cons_succ, ← List.head?_eq_getElem?]
    exact head
  | succ i => exact tail i e' h

namespace Trace

variable {t : Table α τ} {f : Firing} {chars : List Char} {earlier : Array (Call α)}
  {calls : List (Call α)} {items : List (Except Stop τ)} {events : List (Event α)}

/-- A rule that keeps its text puts one event before the log. -/
theorem kept (h : Trace t f.target chars earlier calls items events)
    (keeps : f.action.flushes = false) (leads : ∀ g ∈ (firings events).head?, f.Leads g)
    (opens : ∀ e ∈ events.head?, ¬ e.IsInnerFlush) :
    Trace t f.origin (f.consumed ++ chars) earlier calls items (f.event :: events) := by
  obtain ⟨left, hchars, all⟩ := h.chars
  constructor
  · simp
  · exact List.isChain_cons.mpr ⟨leads, h.path⟩
  · exact ⟨left, by simp [hchars], all⟩
  · apply precedes_cons _ h.order
    rintro g ⟨⟩
    exact ⟨fun flushes => absurd flushes (by simp [keeps]), fun _ => opens⟩
  · exact h.flushes
  · intro failed
    exact (h.fails failed).cons rfl
  · intro clean
    exact List.forall_mem_cons.mpr ⟨rfl, h.succeeds clean⟩

/-- A rule that flushes puts two events before the log, for one call. -/
theorem flushed {label : α} {text : String} {token : Option τ}
    (h : Trace t f.target chars (earlier.push ⟨label, text, false⟩) calls items events)
    (flushes : f.action.flushes = true) (leads : ∀ g ∈ (firings events).head?, f.Leads g)
    (labelled : t.label? f.origin = some label)
    (answer : t.factory earlier ⟨label, text, false⟩ = .ok token) :
    Trace t f.origin (f.consumed ++ chars) earlier (⟨label, text, false⟩ :: calls)
      (token.toList.map .ok ++ items)
      (f.event :: .flushed label text false token.isSome :: events) := by
  obtain ⟨left, hchars, all⟩ := h.chars
  constructor
  · simp
  · exact List.isChain_cons.mpr ⟨leads, h.path⟩
  · rw [fails_tokens_append]
    exact ⟨left, by simp [hchars], all⟩
  · apply precedes_cons
    · rintro g ⟨⟩
      refine ⟨fun _ => ⟨label, _, labelled, rfl, (isInnerFlush_flushed ..).mpr rfl, ?_⟩, ?_⟩
      · simp [Event.details, Value.of]
      · intro keeps
        exact absurd keeps (by simp [flushes])
    · -- a flush itself asks nothing of the event that follows it
      exact precedes_cons (Event.precedes_of_firing?_eq_none rfl _) h.order
  · rw [Factory.dialogue_cons, answer, List.map_cons, ← h.flushes]
    rfl
  · rw [fails_tokens_append]
    intro failed
    exact ((h.fails failed).cons rfl).cons rfl
  · rw [fails_tokens_append]
    intro clean
    exact List.forall_mem_cons.mpr ⟨rfl, List.forall_mem_cons.mpr ⟨rfl, h.succeeds clean⟩⟩

/-- The log of a scan that stops with an error. -/
theorem failed (t : Table α τ) (origin : Nat) (chars : List Char) (earlier : Array (Call α))
    (stop : Stop) {e : Event α} (he : e.isFailure = true) :
    Trace t origin chars earlier [] [.error stop] [e] := by
  have silent : e.firing? = none ∧ e.consumed? = none ∧ e.isFlush = false := by
    cases e with
    | hopLimitExceeded | ruleMissing => exact ⟨rfl, rfl, rfl⟩
    | _ => cases he
  obtain ⟨noFiring, nothing, noFlush⟩ := silent
  have fails : Fails [(.error stop : Except Stop τ)] := ⟨stop, List.mem_singleton_self _⟩
  constructor
  · simp [firings, noFiring]
  · simp [firings, noFiring]
  · exact ⟨chars, by simp [nothing], fun clean => absurd fails clean⟩
  · exact precedes_cons (Event.precedes_of_firing?_eq_none noFiring _) (by simp)
  · simp [noFlush, Factory.dialogue]
  · intro _
    exact ⟨[], e, rfl, he, by simp⟩
  · intro clean
    exact absurd fails clean

/-- The log of the flush at the end of the text. -/
theorem ended {label : α} {text : String} {token : Option τ} (origin : Nat)
    (answer : t.factory earlier ⟨label, text, true⟩ = .ok token) :
    Trace t origin [] earlier [⟨label, text, true⟩] (token.toList.map .ok)
      [.flushed label text true token.isSome] := by
  have clean : ¬ Fails (token.toList.map (Except.ok : τ → Except Stop τ)) := by simp [Fails]
  constructor
  · rintro f ⟨⟩
  · exact .nil
  · exact ⟨[], rfl, fun _ => rfl⟩
  · exact precedes_cons (Event.precedes_of_firing?_eq_none rfl _) (by simp)
  · rw [Factory.dialogue_cons, answer]
    rfl
  · intro fails
    exact absurd fails clean
  · simp [Event.isFailure]

end Trace

/-! ## The log of a run -/

namespace Scan

omit [Described α] in
/-- A character that a rule has consumed is not up again, any other one is, with one
more hop. -/
theorem upcoming_after {rest rest' : List Char} {ch ch' : Char} {hops hops' : Nat} {m : Machine}
    {action : Action} {token : Option τ} {s : Scan}
    (h : after rest ch hops m (Reaction.of action token) = some s)
    (hu : s.upcoming = some (ch', hops', rest')) :
    (action.isZeroWidth = true → ch' = ch ∧ hops' = hops + 1) ∧
      (action.isZeroWidth = false → hops' = 0) := by
  cases hz : action.isZeroWidth with
  | true =>
    simp only [Reaction.of, hz, if_true] at h
    obtain ⟨_, he, -⟩ | ⟨_, -, -, rfl⟩ := after_eq_some h
    · cases he
    · cases hu
      exact ⟨fun _ => ⟨rfl, rfl⟩, by simp⟩
  | false =>
    simp only [Reaction.of, hz, Bool.false_eq_true, if_false] at h
    obtain ⟨_, -, rfl⟩ | ⟨_, he, -⟩ := after_eq_some h
    · obtain ⟨hp, -⟩ | ⟨-, zero, -⟩ := upcoming_eq_some hu
      · cases hp
      · exact ⟨by simp, fun _ => zero⟩
    · cases he

/-- The log that is left from a scan to its end. It begins with the character that is
up, and not with a flush before the end. -/
structure Traced (t : Table α τ) (s : Scan) (j : Journal α) (x : Transcript α τ)
    (calls : List (Call α)) (events : List (Event α)) : Prop
    extends Trace t s.machine.state s.pending j.calls calls x.items events where
  journal : x.journal = j.grow calls events
  first : ∀ f ∈ (firings events).head?, ∃ rest, s.upcoming = some (f.ch, f.hops, rest)
  opens : ∀ e ∈ events.head?, ¬ e.IsInnerFlush

variable {t : Table α τ}

/-- What a rule leads to, the log that is left begins with. -/
theorem Traced.leads {s : Scan} {j : Journal α} {x : Transcript α τ} {calls : List (Call α)}
    {events : List (Event α)} (h : s.Traced t j x calls events) {f : Firing} {rest : List Char}
    {m : Machine} {token : Option τ}
    (hs : after rest f.ch f.hops m (Reaction.of f.action token) = some s)
    (moved : m.state = f.target) : ∀ g ∈ (firings events).head?, f.Leads g := by
  intro g hg
  obtain ⟨rest', hu⟩ := h.first g hg
  obtain ⟨again, fresh⟩ := upcoming_after hs hu
  refine ⟨?_, again, fresh⟩
  rw [h.start g hg, machine_after hs, moved]

theorem traced_errored {s : Scan} {j k : Journal α} {ch : Char} {hops : Nat} {rest : List Char}
    {m : Machine} {e : ScanError} (hd : s.done = false) (hu : s.upcoming = some (ch, hops, rest))
    (ho : s.machine.fire t ch hops j = ⟨m, k, .error (.error e)⟩) :
    ∃ calls events, s.Traced t j (transcript t s j) calls events := by
  rw [transcript_errored hd hu ho]
  have fires := Machine.fires_fire t s.machine ch hops j
  rw [ho] at fires
  cases fires with
  | overLimit beyond =>
    refine ⟨[], [.hopLimitExceeded ch (s.machine.label t) hops],
      .failed t _ _ _ _ rfl, Journal.log_eq_grow j _, ?_, ?_⟩
    · rintro f ⟨⟩
    · rintro _ ⟨⟩
      exact Event.not_isInnerFlush rfl
  | noRule within missing =>
    refine ⟨[], [.ruleMissing e], .failed t _ _ _ _ rfl, Journal.log_eq_grow j _, ?_, ?_⟩
    · rintro f ⟨⟩
    · rintro _ ⟨⟩
      exact Event.not_isInnerFlush rfl

theorem traced_ended (total : t.factory.Total) {s : Scan} {j : Journal α} (hd : s.done = false)
    (hu : s.upcoming = none) (hm : s.machine.state < t.stateCount) :
    ∃ calls events, s.Traced t j (transcript t s j) calls events := by
  obtain ⟨hp, hr⟩ := upcoming_eq_none hu
  obtain ⟨label, labelled⟩ := Table.lt_stateCount_iff.mp hm
  obtain ⟨token, answer⟩ := total j.calls ⟨label, s.machine.held, true⟩
  have pending : s.pending = [] := by simp [Scan.pending, hp, hr]
  rw [transcript_ended hd hu, finish, (Machine.Closes.flushed labelled answer).eq]
  refine ⟨[⟨label, s.machine.held, true⟩], [.flushed label s.machine.held true token.isSome],
    ?_, ?_, ?_, ?_⟩
  · rw [pending]
    cases token with
    | none => exact .ended _ answer
    | some token => exact .ended _ answer
  · rw [Journal.log_eq_grow, Journal.record_eq_grow, Journal.grow_grow]
    rfl
  · rintro f ⟨⟩
  · rintro _ ⟨⟩ inner
    exact absurd ((isInnerFlush_flushed ..).mp inner) (by decide)

/-- A rule that fires puts its events before those that are to come. -/
theorem traced_fired {s s' : Scan} {j k : Journal α} {ch : Char} {hops : Nat} {rest : List Char}
    {m : Machine} {reaction : Reaction τ} (hd : s.done = false)
    (hu : s.upcoming = some (ch, hops, rest))
    (ho : s.machine.fire t ch hops j = ⟨m, k, .ok reaction⟩)
    (hs : after rest ch hops m reaction = some s')
    (later : ∃ calls events, s'.Traced t k (transcript t s' k) calls events) :
    ∃ calls events, s.Traced t j (transcript t s j) calls events := by
  obtain ⟨calls, events, later⟩ := later
  have trace := later.toTrace
  rw [transcript_fired hd hu ho hs]
  -- the log to come begins in the state that the rule leads to
  rw [machine_after hs] at trace
  have fires := Machine.fires_fire t s.machine ch hops j
  rw [ho] at fires
  cases fires with
  | @kept rule within selected keeps =>
    have chars := (pending_of_upcoming hu).trans (pending_after hs).symm
    have leads := later.leads (f := ⟨ch, s.machine.state, rule.next, rule.action, hops⟩) hs rfl
    refine ⟨calls, s.machine.firing rule ch hops :: events, ?_, ?_, ?_, ?_⟩
    · rw [chars, token_of]
      exact trace.kept keeps leads later.opens
    · rw [later.journal, Journal.log_eq_grow, Journal.grow_grow]
      rfl
    · rintro f ⟨⟩
      exact ⟨rest, hu⟩
    · rintro _ ⟨⟩
      exact Event.not_isInnerFlush rfl
  | @flushed rule label token within selected flushes labelled answer =>
    have chars := (pending_of_upcoming hu).trans (pending_after hs).symm
    have leads := later.leads (f := ⟨ch, s.machine.state, rule.next, rule.action, hops⟩) hs rfl
    refine ⟨⟨label, (s.machine.move rule ch).held, false⟩ :: calls,
      s.machine.firing rule ch hops ::
        .flushed label (s.machine.move rule ch).held false token.isSome :: events, ?_, ?_, ?_, ?_⟩
    · rw [chars, token_of]
      exact trace.flushed flushes leads labelled answer
    · rw [later.journal, Journal.log_eq_grow, Journal.record_eq_grow, Journal.log_eq_grow,
        Journal.grow_grow, Journal.grow_grow, Journal.grow_grow]
      rfl
    · rintro f ⟨⟩
      exact ⟨rest, hu⟩
    · rintro _ ⟨⟩
      exact Event.not_isInnerFlush rfl

/-- Every scan in a state of a closed table leaves a log of its run. -/
theorem exists_traced (hl : t.limits.maxHops.toNat < hopCeiling) (total : t.factory.Total)
    (closed : t.Closed) (s : Scan) (j : Journal α) (hd : s.done = false)
    (hm : s.machine.state < t.stateCount) :
    ∃ calls events, s.Traced t j (transcript t s j) calls events := by
  induction s, j using scan_induction hl total with
  | done s j done => exact absurd (hd.symm.trans done) (by decide)
  | ended s j _ hu => exact traced_ended total hd hu hm
  | errored s j ch hops rest m k e _ hu ho => exact traced_errored hd hu ho
  | fired s j ch hops rest m k reaction s' _ hu ho hs ih =>
    have within : s'.machine.state < t.stateCount := by
      rw [machine_after hs]
      exact (Machine.sound_fire closed hm ho).within
    exact traced_fired hd hu ho hs (ih (done_after hs) within)

end Scan

end TableLexer
