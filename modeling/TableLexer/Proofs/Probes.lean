import TableLexer.Proofs.Gaps
import TableLexer.Proofs.Joints
import TableLexer.Proofs.Online

/-!
# Trying the factory before it is used

A checked build builds, and then tries the factory once in each state, in the order of
their numbers, until a call fails (`Tries`). A factory without memory does not notice:
what is done with a table depends on the journal it starts from only in that the journal
goes on from there. So the table is used as if the factory had not been tried.
-/

namespace TableLexer

variable {α τ : Type}

/-! ## Journals that go on from earlier ones -/

/-- The journal, made after an earlier one. -/
def Journal.prepend (earlier j : Journal α) : Journal α :=
  ⟨earlier.calls ++ j.calls, earlier.events ++ j.events⟩

def Outcome.prepend {β : Type} (earlier : Journal α) (o : Outcome α β) : Outcome α β :=
  { o with journal := earlier.prepend o.journal }

def Delivery.prepend (earlier : Journal α) (d : Delivery α τ) : Delivery α τ :=
  { d with journal := earlier.prepend d.journal }

def Pull.prepend (earlier : Journal α) (p : Pull α τ) : Pull α τ :=
  { p with journal := earlier.prepend p.journal }

def Turn.prepend (earlier : Journal α) : Turn α τ → Turn α τ
  | .answer p => .answer (p.prepend earlier)
  | .onward s j => .onward s (earlier.prepend j)

def Bench.prepend (earlier : Journal α) (b : Bench α) : Bench α :=
  { b with journal := earlier.prepend b.journal }

namespace Journal

theorem prepend_record (earlier j : Journal α) (call : Call α) :
    (earlier.prepend j).record call = earlier.prepend (j.record call) := by
  simp [prepend, record]

theorem prepend_log (earlier j : Journal α) (event : Event α) :
    (earlier.prepend j).log event = earlier.prepend (j.log event) := by
  simp [prepend, log]

theorem prepend_empty (j : Journal α) : j.prepend {} = j := by
  simp [prepend]

theorem callsSince_prepend (earlier j : Journal α) :
    (earlier.prepend j).callsSince earlier = j.calls.toList := by
  simp [callsSince, prepend]

end Journal

/-! ## A factory without memory -/

namespace Machine

variable {t : Table α τ} (memoryless : t.factory.Memoryless)
include memoryless

theorem flushEnd_prepend (earlier : Journal α) (m : Machine) (j : Journal α) :
    m.flushEnd t (earlier.prepend j) = (m.flushEnd t j).prepend earlier := by
  have closes := closes_flushEnd t m j
  generalize m.flushEnd t j = o at closes ⊢
  cases closes with
  | unknown unlabelled => exact (Closes.unknown unlabelled).eq
  | failed labelled answer =>
    rw [memoryless _ (earlier.prepend j).calls] at answer
    rw [(Closes.failed labelled answer).eq, Journal.prepend_record]
    rfl
  | flushed labelled answer =>
    rw [memoryless _ (earlier.prepend j).calls] at answer
    rw [(Closes.flushed labelled answer).eq, Journal.prepend_record, Journal.prepend_log]
    rfl

theorem close_prepend (earlier : Journal α) (sink : Sink τ) (m : Machine) (received : Array τ)
    (j : Journal α) :
    m.close t sink received (earlier.prepend j) = (m.close t sink received j).prepend earlier := by
  rw [close, close, flushEnd_prepend memoryless]
  rcases m.flushEnd t j with ⟨m', k, stop | token⟩ <;> rfl

variable [Described α]

/-- What a rule does is the same after other calls. -/
theorem fire_prepend (earlier : Journal α) (m : Machine) (ch : Char) (hops : Nat) (j : Journal α) :
    m.fire t ch hops (earlier.prepend j) = (m.fire t ch hops j).prepend earlier := by
  have fires := fires_fire t m ch hops j
  generalize m.fire t ch hops j = o at fires ⊢
  cases fires with
  | overLimit beyond =>
    rw [(Fires.overLimit beyond).eq, Journal.prepend_log]
    rfl
  | noRule within missing =>
    rw [(Fires.noRule within missing).eq, Journal.prepend_log]
    rfl
  | kept within selected keeps =>
    rw [(Fires.kept within selected keeps).eq, Journal.prepend_log]
    rfl
  | failed within selected flushes labelled answer =>
    rw [memoryless _ (earlier.prepend j).calls] at answer
    rw [(Fires.failed within selected flushes labelled answer).eq, Journal.prepend_log,
      Journal.prepend_record]
    rfl
  | flushed within selected flushes labelled answer =>
    rw [memoryless _ (earlier.prepend j).calls] at answer
    rw [(Fires.flushed within selected flushes labelled answer).eq, Journal.prepend_log,
      Journal.prepend_record, Journal.prepend_log]
    rfl

theorem feedFrom_prepend (earlier : Journal α) (sink : Sink τ) (m : Machine) (ch : Char)
    (hops : Nat) (received : Array τ) (j : Journal α) :
    m.feedFrom t sink ch hops received (earlier.prepend j) =
      (m.feedFrom t sink ch hops received j).prepend earlier := by
  fun_induction feedFrom t sink m ch hops received j with
  | case1 m hops received j m' k stop fired =>
    rw [feedFrom, fire_prepend memoryless, fired]
    rfl
  | case2 m hops received j m' k token fired received' verdict delivered =>
    rw [feedFrom, fire_prepend memoryless, fired]
    simp only [Outcome.prepend, delivered]
    rfl
  | case3 m hops received j m' k token fired received' delivered =>
    rw [feedFrom, fire_prepend memoryless, fired]
    simp only [Outcome.prepend, delivered]
    rfl
  | case4 m hops received j m' k token fired received' delivered room ih =>
    rw [feedFrom, fire_prepend memoryless, fired]
    simp only [Outcome.prepend, delivered, room, if_true]
    exact ih
  | case5 m hops received j m' k token fired received' delivered full =>
    rw [feedFrom, fire_prepend memoryless, fired]
    simp only [Outcome.prepend, delivered, full, if_false]
    rfl

theorem feedAll_prepend (earlier : Journal α) (sink : Sink τ) (m : Machine) (received : Array τ)
    (j : Journal α) (chars : List Char) :
    (feedAll t sink m received (earlier.prepend j) chars).1 =
      (feedAll t sink m received j chars).1.prepend earlier := by
  induction chars generalizing m received j with
  | nil => rfl
  | cons ch chars ih =>
    rw [feedAll, feedAll, feed, feed, feedFrom_prepend memoryless]
    rcases m.feedFrom t sink ch 0 received j with ⟨m', k, received', stop | _ | _⟩
    · rfl
    · rfl
    · exact ih m' received' k

end Machine

namespace Scan

theorem settle_prepend (earlier : Journal α) (rest : List Char) (ch : Char) (hops : Nat)
    (o : Outcome α (Reaction τ)) :
    settle rest ch hops (o.prepend earlier) = (settle rest ch hops o).prepend earlier := by
  rcases o with ⟨m, k, stop | reaction⟩
  · rfl
  · simp only [settle, Outcome.prepend]
    cases after rest ch hops m reaction with
    | none => rfl
    | some s =>
      cases reaction.token with
      | none => rfl
      | some token => rfl

variable [Described α] {t : Table α τ} (memoryless : t.factory.Memoryless)
include memoryless

omit [Described α] in
theorem finish_prepend (earlier : Journal α) (m : Machine) (j : Journal α) :
    finish t m (earlier.prepend j) = (finish t m j).prepend earlier := by
  rw [finish, finish, Machine.flushEnd_prepend memoryless]
  rfl

theorem turn_prepend (earlier : Journal α) (s : Scan) (j : Journal α) :
    turn t s (earlier.prepend j) = (turn t s j).prepend earlier := by
  cases hd : s.done with
  | true =>
    simp only [turn, hd, if_true]
    rfl
  | false =>
    cases hu : s.upcoming with
    | none =>
      rw [turn_end t _ hd hu, turn_end t j hd hu, finish_prepend memoryless]
      rfl
    | some up =>
      obtain ⟨ch, hops, rest⟩ := up
      rw [turn_up t _ hd hu, turn_up t j hd hu, Machine.fire_prepend memoryless, settle_prepend]

theorem pull_prepend (earlier : Journal α) (s : Scan) (j : Journal α) :
    pull t s (earlier.prepend j) = (pull t s j).prepend earlier := by
  -- turn by turn; only a turn without an answer leaves something to the induction
  induction s using wellFounded_less.induction generalizing j with
  | _ s ih =>
    have less := turn_less t s j
    have turns := turns_turn t s j
    rw [pull_eq_turn, turn_prepend memoryless, pull_eq_turn t s j]
    generalize turn t s j = u at less turns ⊢
    cases u with
    | answer p => rfl
    | onward s' k =>
      cases turns with
      | quiet undone up fired next silent => exact ih s' (less undone) k

theorem nth_prepend (earlier : Journal α) (k : Nat) (s : Scan) (j : Journal α) :
    nth t k s (earlier.prepend j) = (nth t k s j).prepend earlier := by
  induction k generalizing s j with
  | zero => exact pull_prepend memoryless earlier s j
  | succ k ih =>
    rw [nth_succ, nth_succ, pull_prepend memoryless]
    exact ih _ _

theorem collect_prepend (earlier : Journal α) (s : Scan) (j : Journal α) (tokens : Array τ) :
    collect t s (earlier.prepend j) tokens =
      ((collect t s j tokens).1, earlier.prepend (collect t s j tokens).2) := by
  induction s using wellFounded_less.induction generalizing j tokens with
  | _ s ih =>
    rw [collect_eq, collect_eq t s j, pull_prepend memoryless]
    rcases pulled : pull t s j with ⟨s', k, _ | stop | token⟩
    · rfl
    · rfl
    · exact ih s' (less_of_pull pulled) k _

end Scan

namespace Bench

variable [Described α] {t : Table α τ} (memoryless : t.factory.Memoryless)
include memoryless

theorem step_prepend (earlier : Journal α) (b : Bench α) (operation : Operation τ) :
    (b.prepend earlier).step t operation =
      ((b.step t operation).1.prepend earlier, (b.step t operation).2) := by
  obtain ⟨machines, scans, j⟩ := b
  cases operation with
  | machine | reset => rfl
  | duplicate i =>
    simp only [step, prepend]
    cases machines[i]? with
    | none => rfl
    | some m => rfl
  | process i ch sink received =>
    simp only [step, prepend, Machine.feed, Machine.feedFrom_prepend memoryless]
    cases machines[i]? with
    | none => rfl
    | some m => rfl
  | finish i sink received =>
    simp only [step, prepend, Machine.close_prepend memoryless]
    cases machines[i]? with
    | none => rfl
    | some m => rfl
  | lex text =>
    simp only [step, prepend, Scan.start, Journal.prepend_log]
  | next i =>
    simp only [step, prepend, Scan.pull_prepend memoryless]
    cases scans[i]? with
    | none => rfl
    | some s => rfl

theorem run_prepend (earlier : Journal α) (b : Bench α) (operations : List (Operation τ)) :
    (b.prepend earlier).run t operations =
      ((b.run t operations).1.prepend earlier, (b.run t operations).2) := by
  induction operations generalizing b with
  | nil => rfl
  | cons operation operations ih =>
    rw [run, run, step_prepend memoryless]
    simp only [ih]

end Bench

/-! ## Tables in use -/

namespace Table

variable [Described α]

/-- Two tables, each with the journal that its use starts from, that give the same items,
tokens, verdicts and replies after the same calls. -/
structure UsedAlike (t : Table α τ) (j : Journal α) (t' : Table α τ) (j' : Journal α) :
    Prop where
  pulls : ∀ text k, (t'.nth text k j').item = (t.nth text k j).item ∧
    (t'.nth text k j').journal.callsSince j' = (t.nth text k j).journal.callsSince j
  tokens : ∀ text, (t'.tokens text j').1 = (t.tokens text j).1
  streams : ∀ text sink,
    (t'.stream text sink j').received = (t.stream text sink j).received ∧
    (t'.stream text sink j').result = (t.stream text sink j).result ∧
    (t'.stream text sink j').journal.callsSince j' = (t.stream text sink j).journal.callsSince j
  replies : ∀ operations : List (Operation τ),
    (Bench.run t' { journal := j' } operations).2 = (Bench.run t { journal := j } operations).2

section

variable {t : Table α τ} (memoryless : t.factory.Memoryless)
include memoryless

theorem nth_prepend (earlier : Journal α) (text : String) (k : Nat) (j : Journal α) :
    t.nth text k (earlier.prepend j) = (t.nth text k j).prepend earlier := by
  simp only [nth, Scan.start, Journal.prepend_log, Scan.nth_prepend memoryless]

theorem tokens_prepend (earlier : Journal α) (text : String) (j : Journal α) :
    t.tokens text (earlier.prepend j) = ((t.tokens text j).1, earlier.prepend (t.tokens text j).2) := by
  simp only [tokens, Scan.start, Journal.prepend_log, Scan.collect_prepend memoryless]

theorem stream_prepend (earlier : Journal α) (text : String) (sink : Sink τ) (j : Journal α) :
    t.stream text sink (earlier.prepend j) = (t.stream text sink j).prepend earlier := by
  rw [stream, stream, Machine.feedAll_prepend memoryless]
  rcases (Machine.feedAll t sink {} #[] j (normalize text.toList)).1 with
    ⟨m, k, received, stop | _ | _⟩
  · rfl
  · simp only [Delivery.prepend, Journal.prepend_log]
  · exact Machine.close_prepend memoryless earlier sink m received k

/-- A table whose factory has no memory is used alike from any two journals. -/
theorem usedAlike_of_memoryless (j j' : Journal α) : t.UsedAlike j t j' := by
  constructor
  case pulls =>
    intro text k
    have same (j : Journal α) : t.nth text k j = (t.nth text k {}).prepend j := by
      rw [← nth_prepend memoryless, j.prepend_empty]
    rw [same j, same j']
    exact ⟨rfl, by simp only [Pull.prepend, Journal.callsSince_prepend]⟩
  case tokens =>
    intro text
    have same (j : Journal α) : (t.tokens text j).1 = (t.tokens text {}).1 := by
      rw [← j.prepend_empty, tokens_prepend memoryless]
    rw [same j, same j']
  case streams =>
    intro text sink
    have same (j : Journal α) : t.stream text sink j = (t.stream text sink {}).prepend j := by
      rw [← stream_prepend memoryless, j.prepend_empty]
    rw [same j, same j']
    exact ⟨rfl, rfl, by simp only [Delivery.prepend, Journal.callsSince_prepend]⟩
  case replies =>
    intro operations
    have same (j : Journal α) : (Bench.run t { journal := j } operations).2 =
        (Bench.run t {} operations).2 := by
      have prepended := congrArg Prod.snd (Bench.run_prepend memoryless j {} operations)
      rwa [Bench.prepend, j.prepend_empty] at prepended
    rw [same j, same j']

end

end Table

/-! ## One call for each state -/

/-- The call that tries the factory in a state. -/
def Call.probe (state : α) : Call α := ⟨state, "", false⟩

/-- None of the calls fails when they are made one after the other. -/
def Factory.Answered (factory : Factory α τ) (earlier : Array (Call α)) (calls : List (Call α)) :
    Prop :=
  ∀ answer ∈ factory.answers earlier calls, ∃ token, answer = .ok token

namespace Factory

theorem answered_nil (factory : Factory α τ) (earlier : Array (Call α)) :
    factory.Answered earlier [] := by
  intro answer hm
  cases hm

theorem Answered.cons {factory : Factory α τ} {earlier : Array (Call α)} {call : Call α}
    {calls : List (Call α)} {token : Option τ} (answer : factory earlier call = .ok token)
    (h : factory.Answered (earlier.push call) calls) :
    factory.Answered earlier (call :: calls) := by
  intro other hm
  obtain rfl | hm := List.mem_cons.mp hm
  · exact ⟨token, answer⟩
  · exact h other hm

end Factory

variable [Described α]

/-- What comes of trying the factory in each of the states: all calls are answered, and
the result is `value`, or the first one that fails ends it with an error. -/
inductive Tries {β : Type} (factory : Factory α τ) (states : List α) (j : Journal α) (value : β) :
    Except TableError β × Journal α → Prop where
  | passed (answered : factory.Answered j.calls (states.map .probe)) :
    Tries factory states j value (.ok value, j.grow (states.map .probe) [])
  | failed {before after : List α} {state : α} {fault : Fault}
      (split : states = before ++ state :: after)
      (answered : factory.Answered j.calls (before.map .probe))
      (fails : factory (j.calls ++ (before.map .probe).toArray) (.probe state) = .error fault) :
    Tries factory states j value
      (.error (.factoryFailed (describe state) (fault.message.getD "unknown panic")),
        j.grow ((before ++ [state]).map .probe)
          [.factoryFailed state (fault.message.getD "unknown panic")])

/-- Only what is tried can be the result. -/
theorem Tries.eq_of_ok {β : Type} {factory : Factory α τ} {states : List α} {j : Journal α}
    {value value' : β} {outcome : Except TableError β × Journal α}
    (h : Tries factory states j value outcome) (ok : outcome.1 = .ok value') : value' = value := by
  cases h with
  | passed answered => exact (Except.ok.inj ok).symm
  | failed split answered fails => cases ok

/-- A call that is answered comes before those for the other states. -/
theorem Tries.cons {β : Type} {factory : Factory α τ} {state : α} {states : List α}
    {j : Journal α} {value : β} {outcome : Except TableError β × Journal α} {token : Option τ}
    (answer : factory j.calls (.probe state) = .ok token)
    (later : Tries factory states (j.record (.probe state)) value outcome) :
    Tries factory (state :: states) j value outcome := by
  have grown (calls : List (Call α)) (events : List (Event α)) :
      (j.record (.probe state)).grow calls events = j.grow (.probe state :: calls) events := by
    simp [Journal.record_eq_grow]
  cases later with
  | passed answered =>
    rw [grown]
    exact .passed (.cons answer answered)
  | @failed before after state' fault split answered fails =>
    rw [Journal.calls_record, List.push_append_toArray] at fails
    have split' : state :: states = (state :: before) ++ state' :: after := by rw [split]; rfl
    rw [grown]
    exact .failed split' (.cons answer answered) fails

namespace Table

theorem tryFactory_of_ok {t : Table α τ} {state : α} {j : Journal α} {token : Option τ}
    (answer : t.factory j.calls (.probe state) = .ok token) (states : List α) :
    t.tryFactory (state :: states) j = t.tryFactory states (j.record (.probe state)) := by
  rw [Call.probe] at answer ⊢
  simp only [tryFactory, answer]

theorem tryFactory_of_error {t : Table α τ} {state : α} {j : Journal α} {fault : Fault}
    (answer : t.factory j.calls (.probe state) = .error fault) (states : List α) :
    t.tryFactory (state :: states) j =
      (.error (.factoryFailed (describe state) (fault.message.getD "unknown panic")),
        j.grow [.probe state] [.factoryFailed state (fault.message.getD "unknown panic")]) := by
  rw [Call.probe] at answer ⊢
  simp [tryFactory, answer, Journal.record_eq_grow, Journal.log_eq_grow]

theorem tries_tryFactory (t : Table α τ) (states : List α) (j : Journal α) :
    Tries t.factory states j () (t.tryFactory states j) := by
  induction states generalizing j with
  | nil =>
    have same : j = j.grow [] [] := by simp [Journal.grow]
    rw [tryFactory]
    nth_rewrite 2 [same]
    exact .passed (t.factory.answered_nil j.calls)
  | cons state states ih =>
    cases answer : t.factory j.calls (.probe state) with
    | error fault =>
      have split : state :: states = [] ++ state :: states := rfl
      rw [tryFactory_of_error answer]
      exact .failed split (t.factory.answered_nil j.calls) (by simpa using answer)
    | ok token =>
      rw [tryFactory_of_ok answer]
      exact .cons answer (ih _)

end Table

/-! ## Checked builds -/

namespace Draft

variable [DecidableEq α]

theorem buildChecked_of_error {d : Draft α} {factory : Factory α τ} {j k : Journal α}
    {e : TableError} (fails : d.build factory j = (.error e, k)) :
    d.buildChecked factory j = (.error e, k) := by
  rw [buildChecked, fails]

/-- A draft that builds is tried in the states of its table. -/
theorem tries_buildChecked {d : Draft α} {factory : Factory α τ} {j k : Journal α}
    {t : Table α τ} (built : d.build factory j = (.ok t, k)) :
    Tries t.factory t.labels k t (d.buildChecked factory j) := by
  have tries := t.tries_tryFactory t.labels k
  rw [buildChecked, built]
  dsimp only
  generalize t.tryFactory t.labels k = outcome at tries ⊢
  cases tries with
  | passed answered => exact .passed answered
  | failed split answered fails => exact .failed split answered fails

/-- What a checked build of a script comes to, next to the plain build from the same
journal `j`. -/
structure Checked (init : α) (script : List (Directive α)) (factory : Factory α τ)
    (j : Journal α) (plain checked : Except TableError (Table α τ) × Journal α) : Prop where
  /-- The plain build makes no call. -/
  silent : plain.2.calls = j.calls
  /-- If it fails, so does the checked one, and nothing is tried. -/
  unbuilt : ∀ e, plain.1 = .error e → checked = plain
  /-- The initial state comes first, the others in the order of their first rules. -/
  order : ∀ t, plain.1 = .ok t →
    t.labels = init :: (ruled (authored init script)).filter (· ≠ init) ∧ t.labels.Nodup
  tried : ∀ t, plain.1 = .ok t → Tries factory t.labels plain.2 t checked
  same : ∀ t t', plain.1 = .ok t → checked.1 = .ok t' → t' = t
  alike : factory.Memoryless → ∀ t t', plain.1 = .ok t → checked.1 = .ok t' →
    t.UsedAlike plain.2 t' checked.2

/-- A checked build is a build that then tries the factory in one state after the other. -/
theorem checked_build_tries_each_state (init : α) (limits : Limits)
    (script : List (Directive α)) (factory : Factory α τ) (j₀ j : Journal α) :
    Checked init script factory j (((start init limits).run script j₀).1.build factory j)
      (((start init limits).run script j₀).1.buildChecked factory j) := by
  obtain ⟨hinit, hblocks, -⟩ := run_start init limits script j₀
  generalize ((start init limits).run script j₀).1 = d at hinit hblocks ⊢
  subst hinit
  have calls := (diagnosis_build hblocks factory j).calls
  cases built : d.build factory j with
  | mk result k =>
    rw [built] at calls
    cases result with
    | error e =>
      rw [buildChecked_of_error built]
      constructor
      case silent => exact calls
      case unbuilt => exact fun _ _ => rfl
      all_goals simp
    | ok t =>
      have ok : (d.build factory j).1 = .ok t := by rw [built]
      have faithful := faithful_of_build hblocks ok
      have tries := tries_buildChecked built
      have factories := factory_of_build ok
      rw [factories] at tries
      constructor
      case silent => exact calls
      case unbuilt => simp
      case order =>
        intro _ same
        cases same
        exact ⟨faithful.labels, faithful.nodup⟩
      case tried =>
        intro _ same
        cases same
        exact tries
      case same =>
        intro _ t' same ok'
        cases same
        exact tries.eq_of_ok ok'
      case alike =>
        intro memoryless _ t' same ok'
        cases same
        rw [tries.eq_of_ok ok']
        exact Table.usedAlike_of_memoryless (factories ▸ memoryless) _ _

/-- A factory that fails without a message on an empty text in a word. -/
def wordless : Factory Bool String := fun _ call =>
  if call.state && call.text.isEmpty then .error ⟨none⟩ else .ok (some call.text)

/-- The initial state is tried first; the next call fails, and it is the last one. Where
no call fails, the words of a text are those that the plain build finds. -/
theorem checked_build_tries_each_state_letters :
    (((start false {}).run letterScript {}).1.buildChecked wordless {}).1 =
        .error (.factoryFailed "true" "unknown panic") ∧
      (((start false {}).run letterScript {}).1.buildChecked wordless {}).2.calls =
        #[.probe false, .probe true] ∧
      ∃ t k, ((start false {}).run letterScript {}).1.buildChecked .text {} = (.ok t, k) ∧
        k.calls = #[.probe false, .probe true] ∧ (t.nth "aa b" 0 k).item = some (.ok "aa") := by
  have checked := checked_build_tries_each_state false {} letterScript
    (.text : Factory Bool String) {} {}
  have built : ((start false {}).run letterScript {}).1.buildChecked
      (.text : Factory Bool String) {} = (.ok letterWords, _) := rfl
  have alike := checked.alike Factory.memoryless_text letterWords letterWords rfl (by rw [built])
  refine ⟨rfl, by decide +kernel, letterWords, _, built, by decide +kernel, ?_⟩
  rw [built] at alike
  rw [(alike.pulls "aa b" 0).1]
  decide +kernel

end Draft

end TableLexer
