import TableLexer.Proofs.Accounting
import TableLexer.Proofs.Closure

/-!
# The held text survives every failure

One machine is used again and again, and whoever uses it goes on after an error, a
refused token or a failure of the factory. A `Ledger` balances such a stretch: the
text that was held, with all characters shifted, is the text of the calls that were
answered and the text still held. A call at which the factory failed counts for
nothing, because the machine still holds its text.
-/

namespace TableLexer

variable {α τ : Type}

namespace Factory

/-- The calls that were answered. -/
def returned (factory : Factory α τ) (earlier : Array (Call α)) (calls : List (Call α)) :
    List (Call α) :=
  ((factory.dialogue earlier calls).filter fun exchange => exchange.2.isOk).map Prod.fst

@[simp] theorem returned_nil (factory : Factory α τ) (earlier : Array (Call α)) :
    factory.returned earlier [] = [] := rfl

theorem returned_append (factory : Factory α τ) (earlier : Array (Call α))
    (calls calls' : List (Call α)) :
    factory.returned earlier (calls ++ calls') =
      factory.returned earlier calls ++ factory.returned (earlier ++ calls.toArray) calls' := by
  rw [returned, dialogue_append, List.filter_append, List.map_append]
  rfl

theorem returned_of_ok {factory : Factory α τ} {earlier : Array (Call α)} {call : Call α}
    {token : Option τ} (h : factory earlier call = .ok token) :
    factory.returned earlier [call] = [call] := by
  simp [returned, dialogue, answers, h, Except.isOk, Except.toBool]

theorem returned_of_error {factory : Factory α τ} {earlier : Array (Call α)} {call : Call α}
    {fault : Fault} (h : factory earlier call = .error fault) :
    factory.returned earlier [call] = [] := by
  simp [returned, dialogue, answers, h, Except.isOk, Except.toBool]

end Factory

variable [Described α]

namespace Machine

/-! ## The balance -/

/-- What happens to a machine from `m` and `j` to `m'` and `j'`, failures included. -/
structure Ledger (t : Table α τ) (m : Machine) (j : Journal α) (m' : Machine) (j' : Journal α)
    (calls : List (Call α)) (events : List (Event α)) : Prop where
  journal : j' = j.grow calls events
  genuine : ∀ event ∈ events, event.Genuine t
  text : m.held.toList ++ shifted events =
    texts (t.factory.returned j.calls calls) ++ m'.held.toList

theorem Ledger.refl (t : Table α τ) (m : Machine) (j : Journal α) : Ledger t m j m j [] [] :=
  ⟨by simp [Journal.grow], by simp, by simp⟩

theorem Ledger.trans {t : Table α τ} {m m' m'' : Machine} {j j' j'' : Journal α}
    {calls calls' : List (Call α)} {events events' : List (Event α)}
    (h : Ledger t m j m' j' calls events) (h' : Ledger t m' j' m'' j'' calls' events') :
    Ledger t m j m'' j'' (calls ++ calls') (events ++ events') := by
  have later := h'.text
  have same : j'.calls = j.calls ++ calls.toArray := by rw [h.journal]; rfl
  rw [same] at later
  constructor
  · rw [h'.journal, h.journal, Journal.grow_grow]
  · intro event hm
    exact (List.mem_append.mp hm).elim (h.genuine event) (h'.genuine event)
  · rw [shifted_append, Factory.returned_append, texts_append, ← List.append_assoc, h.text,
      List.append_assoc, later, List.append_assoc]

/-- Something is entered for every firing, whatever it comes to. -/
theorem ledger_fire {t : Table α τ} {m m' : Machine} {ch : Char} {hops : Nat} {j k : Journal α}
    {r : Except Stop (Reaction τ)} (fired : m.fire t ch hops j = ⟨m', k, r⟩) :
    ∃ calls events, Ledger t m j m' k calls events := by
  have fires := fires_fire t m ch hops j
  rw [fired] at fires
  cases fires with
  | overLimit beyond =>
    refine ⟨[], [.hopLimitExceeded ch (m.label t) hops], Journal.log_eq_grow j _, ?_, ?_⟩
    · simp [Event.Genuine]
    · simp [Event.shifted?]
  | @noRule e within missing =>
    refine ⟨[], [.ruleMissing e], Journal.log_eq_grow j _, ?_, ?_⟩
    · simp [Event.Genuine]
    · simp [Event.shifted?]
  | @kept rule within selected keeps =>
    refine ⟨[], [m.firing rule ch hops], Journal.log_eq_grow j _, ?_, ?_⟩
    · simpa using ⟨rule, selected, rfl, rfl⟩
    · simp [Scan.toList_held_move, firing, Event.shifted?]
  -- what the factory failed on is not booked, since the machine still holds it
  | @failed rule label fault within selected flushes labelled answer =>
    refine ⟨[⟨label, (m.move rule ch).held, false⟩], [m.firing rule ch hops], ?_, ?_, ?_⟩
    · rw [Journal.log_eq_grow, Journal.record_eq_grow, Journal.grow_grow]
      rfl
    · simpa using ⟨rule, selected, rfl, rfl⟩
    · simp [Factory.returned_of_error answer, Scan.toList_held_move, firing, Event.shifted?]
  | @flushed rule label token within selected flushes labelled answer =>
    refine ⟨[⟨label, (m.move rule ch).held, false⟩], [m.firing rule ch hops,
      .flushed label (m.move rule ch).held false token.isSome], ?_, ?_, ?_⟩
    · rw [Journal.log_eq_grow, Journal.log_eq_grow, Journal.record_eq_grow, Journal.grow_grow,
        Journal.grow_grow]
      rfl
    · simpa [Event.Genuine] using ⟨rule, selected, rfl, rfl⟩
    · simp [Factory.returned_of_ok answer, Scan.toList_held_move, firing, Event.shifted?]

theorem ledger_feedFrom (t : Table α τ) (sink : Sink τ) (m : Machine) (ch : Char) (hops : Nat)
    (received : Array τ) (j : Journal α) :
    ∃ calls events, Ledger t m j (m.feedFrom t sink ch hops received j).machine
      (m.feedFrom t sink ch hops received j).journal calls events := by
  fun_induction feedFrom t sink m ch hops received j with
  | case1 m hops received j m' j' stop fired => exact ledger_fire fired
  | case2 m hops received j m' j' token fired received' verdict delivered => exact ledger_fire fired
  | case3 m hops received j m' j' token fired received' delivered => exact ledger_fire fired
  | case4 m hops received j m' j' token fired received' delivered hlt ih =>
    obtain ⟨calls, events, first⟩ := ledger_fire fired
    obtain ⟨calls', events', later⟩ := ih
    exact ⟨_, _, first.trans later⟩
  | case5 m hops received j m' j' token fired received' delivered hge => exact ledger_fire fired

/-- At the end of the input the text is let go only for an answer, as long as the
state has a label to flush for. -/
theorem ledger_close (t : Table α τ) (sink : Sink τ) {m : Machine} (received : Array τ)
    (j : Journal α) (hm : m.state < t.stateCount) :
    ∃ calls events, Ledger t m j (m.close t sink received j).machine
      (m.close t sink received j).journal calls events := by
  have closes := closes_flushEnd t m j
  unfold close
  generalize m.flushEnd t j = o at closes ⊢
  cases closes with
  | unknown unlabelled => exact absurd unlabelled (Table.label?_ne_none hm)
  | @failed label fault labelled answer =>
    refine ⟨[⟨label, m.held, true⟩], [], Journal.record_eq_grow j _, by simp, ?_⟩
    simp [Factory.returned_of_error answer]
  | @flushed label token labelled answer =>
    refine ⟨[⟨label, m.held, true⟩], [.flushed label m.held true token.isSome], ?_, ?_, ?_⟩
    · dsimp only
      rw [Journal.log_eq_grow, Journal.record_eq_grow, Journal.grow_grow]
      rfl
    · simp [Event.Genuine]
    · simp [Factory.returned_of_ok answer, Event.shifted?]

/-! ## Where a failure of the factory leaves a machine -/

omit [Described α] in
/-- A flush at the end of the input leaves a fresh machine, unless it fails and leaves
the machine as it was. -/
theorem machine_close (t : Table α τ) (sink : Sink τ) (m : Machine) (received : Array τ)
    (j : Journal α) :
    ((∀ fault, (m.close t sink received j).result ≠ .error (.fault fault)) →
      (m.close t sink received j).machine = {}) ∧
    ∀ fault, (m.close t sink received j).result = .error (.fault fault) →
      (m.close t sink received j).machine = m := by
  have closes := closes_flushEnd t m j
  unfold close
  generalize m.flushEnd t j = o at closes ⊢
  cases closes with
  | unknown unlabelled => exact ⟨fun _ => rfl, by rintro fault ⟨⟩⟩
  | failed labelled answer => exact ⟨fun returns => absurd rfl (returns _), fun _ _ => rfl⟩
  | flushed labelled answer => exact ⟨fun _ => rfl, by rintro fault ⟨⟩⟩

/-- The factory has failed on what a rule for `ch` flushed: this rule was the last to
fire, the machine is in the state that the rule leads to, and it still holds the text
of the call. -/
def LeftAtFlush (t : Table α τ) (ch : Char) (fault : Fault) (m : Machine) (j : Journal α) : Prop :=
  ∃ (origin hops : Nat) (rule : Rule) (label : α) (calls : Array (Call α))
    (events : Array (Event α)),
    t.select origin ch = .ok rule ∧ rule.action.flushes = true ∧
    j.events = events.push (.fired ch origin rule.next rule.action hops) ∧
    t.label? origin = some label ∧ j.calls = calls.push ⟨label, m.held, false⟩ ∧
    t.factory calls ⟨label, m.held, false⟩ = .error fault ∧ m.state = rule.next

theorem leftAtFlush_of_fire {t : Table α τ} {m m' : Machine} {ch : Char} {hops : Nat}
    {j k : Journal α} {fault : Fault} (fired : m.fire t ch hops j = ⟨m', k, .error (.fault fault)⟩) :
    LeftAtFlush t ch fault m' k := by
  have fires := fires_fire t m ch hops j
  rw [fired] at fires
  cases fires with
  | failed within selected flushes labelled answer =>
    exact ⟨m.state, hops, _, _, j.calls, j.events, selected, flushes, rfl, labelled, rfl, answer,
      rfl⟩

theorem leftAtFlush_of_feedFrom (t : Table α τ) (sink : Sink τ) (m : Machine) (ch : Char)
    (hops : Nat) (received : Array τ) (j : Journal α) (fault : Fault)
    (h : (m.feedFrom t sink ch hops received j).result = .error (.fault fault)) :
    LeftAtFlush t ch fault (m.feedFrom t sink ch hops received j).machine
      (m.feedFrom t sink ch hops received j).journal := by
  fun_induction feedFrom t sink m ch hops received j with
  | case1 m hops received j m' j' stop fired =>
    obtain rfl := Except.error.inj h
    exact leftAtFlush_of_fire fired
  | case2 | case3 | case5 => cases h
  | case4 m hops received j m' j' token fired received' delivered hlt ih => exact ih h

/-! ## Every use of a machine -/

/-- A call on a machine, with a consumer that may have received tokens before. -/
inductive Use (τ : Type) where
  | process (ch : Char) (sink : Sink τ) (received : Array τ)
  | finish (sink : Sink τ) (received : Array τ)

def use (t : Table α τ) (m : Machine) (j : Journal α) : Use τ → Delivery α τ
  | .process ch sink received => m.feed t sink ch received j
  | .finish sink received => m.close t sink received j

/-- Use a machine again and again, whatever comes of it. -/
def useAll (t : Table α τ) (m : Machine) (j : Journal α) : List (Use τ) → Machine × Journal α
  | [] => (m, j)
  | u :: uses => useAll t (m.use t j u).machine (m.use t j u).journal uses

theorem ledger_use {t : Table α τ} (closed : t.Closed) {m : Machine} (j : Journal α)
    (hm : m.state < t.stateCount) (u : Use τ) :
    (m.use t j u).machine.state < t.stateCount ∧
      ∃ calls events, Ledger t m j (m.use t j u).machine (m.use t j u).journal calls events := by
  cases u with
  | process ch sink received =>
    exact ⟨(sound_feedFrom closed sink ch 0 received j hm).within,
      ledger_feedFrom t sink m ch 0 received j⟩
  | finish sink received =>
    exact ⟨(sound_close sink received j hm).within, ledger_close t sink received j hm⟩

theorem ledger_useAll {t : Table α τ} (closed : t.Closed) {m : Machine} (j : Journal α)
    (hm : m.state < t.stateCount) (uses : List (Use τ)) :
    ∃ calls events,
      Ledger t m j (useAll t m j uses).1 (useAll t m j uses).2 calls events := by
  induction uses generalizing m j with
  | nil => exact ⟨[], [], .refl t m j⟩
  | cons u uses ih =>
    obtain ⟨within, calls, events, first⟩ := ledger_use closed j hm u
    obtain ⟨calls', events', later⟩ := ih (m.use t j u).journal within
    exact ⟨_, _, first.trans later⟩

/-- However a machine of a built table is used, the texts of the calls answered and
the text it holds are together all characters shifted so far. A flush at the end of
the input that does not fail leaves a fresh machine; a failure of the factory leaves
the machine as it was at the end of the input, and moved with its text elsewhere. -/
theorem held_text_survives_failures [DecidableEq α] (t : Table α τ) (built : t.Built) :
    (∀ (uses : List (Use τ)) (j : Journal α), ∃ calls events,
      (useAll t {} j uses).2 = j.grow calls events ∧ (∀ event ∈ events, event.Genuine t) ∧
      texts (t.factory.returned j.calls calls) ++ (useAll t {} j uses).1.held.toList =
        shifted events) ∧
    (∀ (m : Machine) (sink : Sink τ) (received : Array τ) (j : Journal α),
      ((∀ fault, (m.close t sink received j).result ≠ .error (.fault fault)) →
        (m.close t sink received j).machine = {}) ∧
      ∀ fault, (m.close t sink received j).result = .error (.fault fault) →
        (m.close t sink received j).machine = m) ∧
    ∀ (m : Machine) (ch : Char) (sink : Sink τ) (received : Array τ) (j : Journal α)
      (fault : Fault), (m.feed t sink ch received j).result = .error (.fault fault) →
      LeftAtFlush t ch fault (m.feed t sink ch received j).machine
        (m.feed t sink ch received j).journal := by
  refine ⟨?_, fun m sink received j => machine_close t sink m received j,
    fun m ch sink received j => leftAtFlush_of_feedFrom t sink m ch 0 received j⟩
  intro uses j
  obtain ⟨calls, events, ledger⟩ := ledger_useAll built.closed (m := {}) j t.stateCount_pos uses
  exact ⟨calls, events, ledger.journal, ledger.genuine, ledger.text.symm⟩

/-- The first space makes the factory fail, the second one has no rule, and the token
of the third one is refused. -/
def Use.mixed : List (Use String) :=
  [.process 'a' (fun _ => true) #[], .process ' ' (fun _ => true) #[],
    .process ' ' (fun _ => true) #[], .process 'a' (fun _ => true) #[],
    .process ' ' (fun _ => false) #[], .process 'a' (fun _ => true) #[]]

/-- Nothing is lost on the way. A failure leaves the text with the machine, which is
moved by a rule and stays where it was at the end. -/
theorem held_text_survives_failures_letters :
    letterTable.Built ∧
    (useAll letterTable {} {} Use.mixed).1 = ⟨1, "a"⟩ ∧
    (useAll letterTable {} {} Use.mixed).2.calls = #[⟨true, "a", false⟩, ⟨true, "aa", false⟩] ∧
    (∃ calls events, (useAll letterTable {} {} Use.mixed).2 = Journal.grow {} calls events ∧
      texts (letterTable.factory.returned #[] calls) ++ "a".toList = shifted events) ∧
    LeftAtFlush letterTable ' ' ⟨none⟩
      (feed letterTable (fun _ => true) ⟨1, "a"⟩ ' ' #[] {}).machine
      (feed letterTable (fun _ => true) ⟨1, "a"⟩ ' ' #[] {}).journal ∧
    (close letterTable (fun _ => true) ⟨1, "a"⟩ #[] {}).machine = ⟨1, "a"⟩ ∧
    (close letterTable (fun _ => false) ⟨1, "a"⟩ #[]
      ⟨#[⟨true, "", false⟩], #[]⟩).machine = {} := by
  have built : letterTable.Built := ⟨false, {}, Draft.letterScript, {}, {}, rfl⟩
  obtain ⟨balance, ends, stops⟩ := held_text_survives_failures letterTable built
  have moved : (useAll letterTable {} {} Use.mixed).1 = ⟨1, "a"⟩ := by decide +kernel
  obtain ⟨calls, events, journal, -, text⟩ := balance Use.mixed {}
  refine ⟨built, moved, by decide +kernel, ⟨calls, events, journal, ?_⟩,
    stops _ _ _ _ _ _ (by decide +kernel), (ends _ _ _ _).2 ⟨none⟩ (by decide +kernel),
    (ends _ _ _ _).1 ?_⟩
  · rw [moved] at text
    exact text
  · have verdict : (close letterTable (fun _ => false) ⟨1, "a"⟩ #[]
        ⟨#[⟨true, "", false⟩], #[]⟩).result = .ok false := by decide +kernel
    simp [verdict]

end Machine

end TableLexer
