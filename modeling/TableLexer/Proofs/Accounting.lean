import Mathlib.Control.Monad.Basic
import TableLexer.Proofs.Turns

/-!
# Every character is accounted for

A `Span` is a stretch of a scan without failures, with the calls of the factory, its
answers and the log events of that stretch. It keeps two balances: the characters
that were pending are those consumed and those still pending, and the text that was
held, with all characters shifted, is the text flushed and the text still held. Each
turn is a span, spans compose, and so the pulls of a whole text are one.
-/

namespace TableLexer

variable {α τ : Type}

/-! ## Reading a journal -/

namespace Event

/-- The character that a firing has used up. -/
def consumed? : Event α → Option Char
  | .fired ch _ _ action _ => if action.isZeroWidth then none else some ch
  | _ => none

/-- The character that a firing has added to the held text. -/
def shifted? : Event α → Option Char
  | .fired ch _ _ action _ => if action.shifts then some ch else none
  | _ => none

/-- A firing is of the rule that the table selects. -/
def Genuine [Described α] (t : Table α τ) : Event α → Prop
  | .fired ch origin target action _ =>
    ∃ rule, t.select origin ch = .ok rule ∧ rule.action = action ∧ rule.next = target
  | _ => True

end Event

/-- The characters consumed by the firings among the events, in order. -/
def consumed (events : List (Event α)) : List Char := events.filterMap Event.consumed?

/-- The characters shifted by the firings among the events, in order. -/
def shifted (events : List (Event α)) : List Char := events.filterMap Event.shifted?

/-- The flushed texts one after the other. -/
def texts (calls : List (Call α)) : List Char := calls.flatMap fun call => call.text.toList

@[simp] theorem consumed_nil : consumed ([] : List (Event α)) = [] := rfl
@[simp] theorem shifted_nil : shifted ([] : List (Event α)) = [] := rfl
@[simp] theorem texts_nil : texts ([] : List (Call α)) = [] := rfl

@[simp] theorem consumed_cons (event : Event α) (events : List (Event α)) :
    consumed (event :: events) = event.consumed?.toList ++ consumed events := by
  cases h : event.consumed? <;> simp [consumed, h]

@[simp] theorem shifted_cons (event : Event α) (events : List (Event α)) :
    shifted (event :: events) = event.shifted?.toList ++ shifted events := by
  cases h : event.shifted? <;> simp [shifted, h]

@[simp] theorem texts_cons (call : Call α) (calls : List (Call α)) :
    texts (call :: calls) = call.text.toList ++ texts calls := rfl

@[simp] theorem consumed_append (events events' : List (Event α)) :
    consumed (events ++ events') = consumed events ++ consumed events' :=
  List.filterMap_append

@[simp] theorem shifted_append (events events' : List (Event α)) :
    shifted (events ++ events') = shifted events ++ shifted events' :=
  List.filterMap_append

@[simp] theorem texts_append (calls calls' : List (Call α)) :
    texts (calls ++ calls') = texts calls ++ texts calls' :=
  List.flatMap_append

/-- The last call, and no other, is made at the end of the input. -/
def EndsOnce (calls : List (Call α)) : Prop :=
  ∃ inner last, calls = inner ++ [last] ∧ last.atEnd = true ∧ ∀ call ∈ inner, call.atEnd = false

/-- The answers to a list of calls, each given all calls before it. -/
def Factory.answers (factory : Factory α τ) (earlier : Array (Call α)) :
    List (Call α) → List (Except Fault (Option τ))
  | [] => []
  | call :: calls => factory earlier call :: answers factory (earlier.push call) calls

theorem Factory.answers_append (factory : Factory α τ) (earlier : Array (Call α))
    (calls calls' : List (Call α)) :
    factory.answers earlier (calls ++ calls') =
      factory.answers earlier calls ++ factory.answers (earlier ++ calls.toArray) calls' := by
  induction calls generalizing earlier with
  | nil => simp [answers]
  | cons call calls ih =>
    rw [List.cons_append, answers, answers, ih, List.push_append_toArray]
    rfl

theorem Factory.length_answers (factory : Factory α τ) (earlier : Array (Call α))
    (calls : List (Call α)) : (factory.answers earlier calls).length = calls.length := by
  induction calls generalizing earlier with
  | nil => rfl
  | cons call calls ih => rw [answers, List.length_cons, ih, List.length_cons]

/-- The calls, each with its answer. -/
def Factory.dialogue (factory : Factory α τ) (earlier : Array (Call α)) (calls : List (Call α)) :
    List (Call α × Except Fault (Option τ)) :=
  calls.zip (factory.answers earlier calls)

theorem Factory.dialogue_append (factory : Factory α τ) (earlier : Array (Call α))
    (calls calls' : List (Call α)) :
    factory.dialogue earlier (calls ++ calls') =
      factory.dialogue earlier calls ++ factory.dialogue (earlier ++ calls.toArray) calls' := by
  rw [dialogue, answers_append, List.zip_append (length_answers factory earlier calls).symm]
  rfl

namespace Journal

/-- The journal with further calls and events. -/
def grow (j : Journal α) (calls : List (Call α)) (events : List (Event α)) : Journal α :=
  ⟨j.calls ++ calls.toArray, j.events ++ events.toArray⟩

@[simp] theorem grow_grow (j : Journal α) (calls calls' : List (Call α))
    (events events' : List (Event α)) :
    (j.grow calls events).grow calls' events' = j.grow (calls ++ calls') (events ++ events') := by
  simp [grow, Array.append_assoc]

theorem log_eq_grow (j : Journal α) (event : Event α) : j.log event = j.grow [] [event] := by
  simp [grow, log]

theorem record_eq_grow (j : Journal α) (call : Call α) : j.record call = j.grow [call] [] := by
  simp [grow, record]

end Journal

/-! ## Spans -/

/-- The token that a pull gives, if any. -/
def Pull.tokens (p : Pull α τ) : List τ :=
  match p.item with
  | some (.ok token) => [token]
  | _ => []

namespace Scan

/-- The characters not yet consumed. -/
def pending (s : Scan) : List Char := (s.parked.map Prod.fst).toList ++ s.rest

/-- A stretch of a scan without failures, from `s` and `j` to `s'` and `j'`. -/
structure Span [Described α] (t : Table α τ) (s : Scan) (j : Journal α) (s' : Scan)
    (j' : Journal α) (calls : List (Call α)) (events : List (Event α))
    (answers : List (Option τ)) : Prop where
  journal : j' = j.grow calls events
  genuine : ∀ event ∈ events, event.Genuine t
  chars : s.pending = consumed events ++ s'.pending
  text : s.machine.held.toList ++ shifted events = texts calls ++ s'.machine.held.toList
  answered : t.factory.answers j.calls calls = answers.map .ok
  /-- Only a stretch up to the end has a call at the end of the input. -/
  ends : if s'.done then s'.pending = [] ∧ s'.machine = {} ∧ EndsOnce calls
    else ∀ call ∈ calls, call.atEnd = false

variable [Described α]

theorem Span.trans {t : Table α τ} {s s' s'' : Scan} {j j' j'' : Journal α}
    {calls calls' : List (Call α)} {events events' : List (Event α)}
    {answers answers' : List (Option τ)} (h : Span t s j s' j' calls events answers)
    (hd : s'.done = false) (h' : Span t s' j' s'' j'' calls' events' answers') :
    Span t s j s'' j'' (calls ++ calls') (events ++ events') (answers ++ answers') := by
  have before : ∀ call ∈ calls, call.atEnd = false := by simpa [hd] using h.ends
  constructor
  · rw [h'.journal, h.journal, Journal.grow_grow]
  · intro event hm
    exact (List.mem_append.mp hm).elim (h.genuine event) (h'.genuine event)
  · rw [h.chars, h'.chars, consumed_append, List.append_assoc]
  · rw [shifted_append, texts_append, ← List.append_assoc, h.text, List.append_assoc, h'.text,
      List.append_assoc]
  · have later := h'.answered
    rw [h.journal] at later
    rw [Factory.answers_append, h.answered, List.map_append]
    exact congrArg _ later
  · have ends := h'.ends
    split at ends
    · next hd' =>
      obtain ⟨hp, hm, inner, last, rfl, hlast, hinner⟩ := ends
      rw [if_pos hd']
      refine ⟨hp, hm, calls ++ inner, last, by simp, hlast, ?_⟩
      intro call hcall
      exact (List.mem_append.mp hcall).elim (before call) (hinner call)
    · next hd' =>
      rw [if_neg hd']
      intro call hcall
      exact (List.mem_append.mp hcall).elim (before call) (ends call)

theorem pending_of_upcoming {s : Scan} {ch : Char} {hops : Nat} {rest : List Char}
    (hu : s.upcoming = some (ch, hops, rest)) : s.pending = ch :: rest := by
  obtain ⟨hp, hr⟩ | ⟨hp, -, hr⟩ := upcoming_eq_some hu <;> simp [pending, hp, hr]

/-- A character that a rule consumes is no longer pending, any other one still is. -/
theorem pending_after {rest : List Char} {ch : Char} {hops : Nat} {m : Machine} {action : Action}
    {token : Option τ} {s : Scan}
    (h : after rest ch hops m (Reaction.of action token) = some s) :
    (if action.isZeroWidth then none else some ch).toList ++ s.pending = ch :: rest := by
  cases hz : action.isZeroWidth with
  | true =>
    simp only [Reaction.of, hz, if_true] at h
    obtain ⟨_, he, -⟩ | ⟨_, -, -, rfl⟩ := after_eq_some h
    · cases he
    · rfl
  | false =>
    simp only [Reaction.of, hz, Bool.false_eq_true, if_false] at h
    obtain ⟨_, -, rfl⟩ | ⟨_, he, -⟩ := after_eq_some h
    · rfl
    · cases he

@[simp] theorem token_of (action : Action) (token : Option τ) :
    (Reaction.of action token).token = token := by
  unfold Reaction.of
  split <;> rfl

theorem toList_held_move (m : Machine) (rule : Rule) (ch : Char) :
    (m.move rule ch).held.toList =
      m.held.toList ++ (if rule.action.shifts then some ch else none).toList := by
  cases hs : rule.action.shifts <;> simp [Machine.move, hs]

/-- A rule that fires makes a span. -/
theorem span_fire {t : Table α τ} {s s' : Scan} {j k : Journal α} {ch : Char} {hops : Nat}
    {rest : List Char} {m : Machine} {reaction : Reaction τ}
    (hu : s.upcoming = some (ch, hops, rest))
    (ho : s.machine.fire t ch hops j = ⟨m, k, .ok reaction⟩)
    (hs : after rest ch hops m reaction = some s') :
    ∃ calls events answers, Span t s j s' k calls events answers ∧
      answers.filterMap id = reaction.token.toList := by
  have fires := Machine.fires_fire t s.machine ch hops j
  have hd := done_after hs
  have hm := machine_after hs
  rw [ho] at fires
  cases fires with
  | @kept rule within selected keeps =>
    refine ⟨[], [s.machine.firing rule ch hops], [], ?_, by simp⟩
    constructor
    · exact Journal.log_eq_grow j _
    · simpa using ⟨rule, selected, rfl, rfl⟩
    · rw [pending_of_upcoming hu, ← pending_after hs]
      simp [Machine.firing, Event.consumed?]
    · rw [hm, toList_held_move]
      simp [Machine.firing, Event.shifted?]
    · rfl
    · simp [hd]
  | @flushed rule label token within selected flushes labelled answer =>
    refine ⟨[⟨label, (s.machine.move rule ch).held, false⟩], [s.machine.firing rule ch hops,
      .flushed label (s.machine.move rule ch).held false token.isSome], [token], ?_, ?_⟩
    · constructor
      · rw [Journal.log_eq_grow, Journal.log_eq_grow, Journal.record_eq_grow]
        simp
      · simpa [Event.Genuine] using ⟨rule, selected, rfl, rfl⟩
      · rw [pending_of_upcoming hu, ← pending_after hs]
        simp [Machine.firing, Event.consumed?]
      · rw [hm]
        simp [toList_held_move, Machine.firing, Event.shifted?]
      · simp [Factory.answers, answer]
      · simp [hd]
    · cases token <;> simp

/-- The flush at the end of the text makes a span up to the end. -/
theorem span_finish {t : Table α τ} {s : Scan} {j : Journal α} (hu : s.upcoming = none)
    (hitem : ∀ stop, (finish t s.machine j).item ≠ some (.error stop)) :
    ∃ calls events answers,
      Span t s j (finish t s.machine j).scan (finish t s.machine j).journal calls events answers ∧
        answers.filterMap id = (finish t s.machine j).tokens := by
  obtain ⟨hp, hr⟩ := upcoming_eq_none hu
  have closes := Machine.closes_flushEnd t s.machine j
  unfold finish at hitem ⊢
  generalize s.machine.flushEnd t j = o at closes hitem ⊢
  cases closes with
  | unknown unlabelled => exact absurd rfl (hitem _)
  | failed labelled answer => exact absurd rfl (hitem _)
  | @flushed label token labelled answer =>
    refine ⟨[⟨label, s.machine.held, true⟩],
      [.flushed label s.machine.held true token.isSome], [token], ?_, ?_⟩
    · constructor
      · rw [Journal.log_eq_grow, Journal.record_eq_grow]
        simp
      · simp [Event.Genuine]
      · simp [pending, hp, hr, Event.consumed?]
      · simp [Event.shifted?]
      · simp [Factory.answers, answer]
      · rw [if_pos rfl]
        exact ⟨rfl, rfl, [], _, rfl, rfl, by simp⟩
    · cases token <;> rfl

/-- A pull that does not fail makes a span, and gives the tokens among the answers. -/
theorem span_pull (t : Table α τ) (s : Scan) (j : Journal α) (hd : s.done = false)
    (hitem : ∀ stop, (pull t s j).item ≠ some (.error stop)) :
    ∃ calls events answers,
      Span t s j (pull t s j).scan (pull t s j).journal calls events answers ∧
        answers.filterMap id = (pull t s j).tokens := by
  revert hd hitem
  refine pull_induction (motive := fun s j p => s.done = false →
    (∀ stop, p.item ≠ some (.error stop)) → ∃ calls events answers,
      Span t s j p.scan p.journal calls events answers ∧ answers.filterMap id = p.tokens) ?_ ?_ s j
  · intro s j p turns hd hitem
    cases turns with
    | idle done => exact absurd (hd.symm.trans done) (by decide)
    | ended undone nothing => exact span_finish nothing hitem
    | failed | overflowed => exact absurd rfl (hitem _)
    | gave undone up fired next given =>
      obtain ⟨calls, events, answers, span, among⟩ := span_fire up fired next
      exact ⟨calls, events, answers, span, by rw [among, given]; rfl⟩
  · intro s j s' j' p turns later hd hitem
    cases turns with
    | quiet undone up fired next silent =>
      -- the turn is a span without a token, and the pull of the rest is another one
      obtain ⟨calls, events, answers, span, among⟩ := span_fire up fired next
      obtain ⟨calls', events', answers', span', among'⟩ := later (done_after next) hitem
      refine ⟨_, _, _, span.trans (done_after next) span', ?_⟩
      rw [List.filterMap_append, among, among', silent]
      rfl

/-- The pulls of a scan that ends without a failure make one span. -/
theorem span_of_yields {t : Table α τ} {s s' s'' : Scan} {j j' j'' : Journal α} {tokens : List τ}
    (hd : s.done = false) (hy : Yields t s j tokens s' j')
    (hend : pull t s' j' = ⟨s'', j'', none⟩) :
    ∃ calls events answers, Span t s j s'' j'' calls events answers ∧
      answers.filterMap id = tokens := by
  induction hy with
  | nil s j =>
    obtain ⟨calls, events, answers, span, among⟩ := span_pull t s j hd (by simp [hend])
    rw [hend] at span among
    exact ⟨calls, events, answers, span, among⟩
  | @cons s s₁ s' j j₁ j' token tokens head tail ih =>
    obtain ⟨calls, events, answers, span, among⟩ := span_pull t s j hd (by simp [head])
    rw [head] at span among
    cases hd₁ : s₁.done with
    | true =>
      -- the token was flushed at the end of the text, so it is the last one
      obtain ⟨rfl, rfl, rfl⟩ := tail.of_done hd₁
      rw [pull_done t _ hd₁] at hend
      cases hend
      exact ⟨calls, events, answers, span, among⟩
    | false =>
      obtain ⟨calls', events', answers', span', among'⟩ := ih hd₁ hend
      refine ⟨_, _, _, span.trans hd₁ span', ?_⟩
      rw [List.filterMap_append, among, among']
      rfl

end Scan

/-! ## Whole texts -/

/-- What happens between the journals `j` and `j'` when a text is scanned to its end. -/
structure Account [Described α] (t : Table α τ) (text : String) (j j' : Journal α)
    (calls : List (Call α)) (events : List (Event α)) (tokens : List τ) : Prop where
  calls_made : j'.calls = j.calls ++ calls.toArray
  events_logged : j'.events = j.events ++ events.toArray
  genuine : ∀ event ∈ events, event.Genuine t
  /-- Each character is consumed by one firing, in order. -/
  consumes : consumed events = normalize text.toList
  /-- The texts of the calls are the shifted characters. -/
  flushes : texts calls = shifted events
  ends : EndsOnce calls
  /-- The tokens are those among the answers. -/
  answers : ∃ answers : List (Option τ), t.factory.answers j.calls calls = answers.map .ok ∧
    answers.filterMap id = tokens

variable [Described α]

theorem account_of_yields {t : Table α τ} {text : String} {j j' j'' : Journal α}
    {tokens : List τ} {s' s'' : Scan}
    (hy : Scan.Yields t (Scan.start text j).1 (Scan.start text j).2 tokens s' j')
    (hend : Scan.pull t s' j' = ⟨s'', j'', none⟩) :
    ∃ calls events, Account t text j j'' calls events tokens := by
  obtain ⟨calls, events, answers, span, among⟩ := Scan.span_of_yields rfl hy hend
  have ends := span.ends
  rw [if_pos (Scan.done_of_pull_none hend)] at ends
  obtain ⟨empty, fresh, once⟩ := ends
  refine ⟨calls, .scanStarted text.utf8ByteSize :: events, ?_⟩
  constructor
  · rw [span.journal]
    rfl
  · rw [span.journal]
    simp [Scan.start, Journal.grow]
  · intro event hm
    cases hm with
    | head => trivial
    | tail _ hm => exact span.genuine event hm
  · have chars := span.chars
    rw [empty] at chars
    simpa [Scan.start, Scan.pending, Event.consumed?] using chars.symm
  · have text := span.text
    rw [fresh] at text
    simpa [Scan.start, Event.shifted?] using text.symm
  · exact once
  · exact ⟨answers, span.answered, among⟩

omit [Described α] in
/-- The default factory gives back the flushed texts that are not empty. -/
theorem answers_text {earlier : Array (Call α)} {calls : List (Call α)}
    {answers : List (Option String)}
    (h : (Factory.text : Factory α String).answers earlier calls = answers.map .ok) :
    (∀ token ∈ answers.filterMap id, token ≠ "") ∧
      (answers.filterMap id).flatMap String.toList = texts calls := by
  induction calls generalizing earlier answers with
  | nil =>
    cases answers with
    | nil => simp
    | cons answer answers => cases h
  | cons call calls ih =>
    cases answers with
    | nil => cases h
    | cons answer answers =>
      rw [Factory.answers, List.map_cons, List.cons.injEq] at h
      obtain ⟨first, later⟩ := h
      obtain ⟨nonempty, concat⟩ := ih later
      simp only [Factory.text, Except.ok.injEq] at first
      by_cases he : call.text = ""
      · rw [if_pos (by simp [he])] at first
        subst first
        rw [List.filterMap_cons_none rfl, texts_cons, he, concat]
        exact ⟨nonempty, rfl⟩
      · rw [if_neg (by simpa using he)] at first
        subst first
        rw [List.filterMap_cons_some (f := id) rfl, List.flatMap_cons, texts_cons, concat]
        exact ⟨List.forall_mem_cons.mpr ⟨he, nonempty⟩, rfl⟩

/-- In a table that never skips, whatever is consumed is also shifted. -/
theorem consumed_eq_shifted {t : Table α τ} {events : List (Event α)}
    (genuine : ∀ event ∈ events, event.Genuine t)
    (keeps : ∀ row ∈ t.rows, ∀ rule ∈ row.rules,
      rule.action ≠ .skip ∧ rule.action ≠ .skipReduce) :
    consumed events = shifted events := by
  induction events with
  | nil => rfl
  | cons event events ih =>
    have same : event.consumed? = event.shifted? := by
      cases event with
      | fired ch origin target action hops =>
        obtain ⟨rule, selected, rfl, -⟩ := genuine _ List.mem_cons_self
        obtain ⟨row, hrow, hrule, -⟩ := Table.select_ok selected
        obtain ⟨hskip, hskipReduce⟩ := keeps row (Array.mem_of_getElem? hrow) rule hrule
        cases ha : rule.action <;>
          simp_all [Event.consumed?, Event.shifted?, Action.isZeroWidth, Action.shifts]
      | _ => rfl
    rw [consumed_cons, shifted_cons, same, ih fun e he => genuine e (List.mem_cons_of_mem _ he)]

/-- A text that is scanned to its end is accounted for in full. With the default
factory no token is empty and together they are the shifted characters, which is the
whole text if the table never skips. -/
theorem scan_accounts_for_text :
    (∀ {τ : Type} (t : Table α τ) (text : String) (j j' j'' : Journal α) (tokens : List τ)
      (s' s'' : Scan),
      Scan.Yields t (Scan.start text j).1 (Scan.start text j).2 tokens s' j' →
      Scan.pull t s' j' = ⟨s'', j'', none⟩ →
      ∃ calls events, Account t text j j'' calls events tokens) ∧
    (∀ (t : Table α String) (text : String) (j j' : Journal α) (tokens : Array String),
      t.factory = .text → t.tokens text j = (.ok tokens, j') →
      ∃ calls events, Account t text j j' calls events tokens.toList ∧
        (∀ token ∈ tokens, token ≠ "") ∧
        tokens.toList.flatMap String.toList = shifted events ∧
        ((∀ row ∈ t.rows, ∀ rule ∈ row.rules,
            rule.action ≠ .skip ∧ rule.action ≠ .skipReduce) →
          String.join tokens.toList = normalizeString text)) := by
  refine ⟨fun t text j j' j'' tokens s' s'' hy hend => account_of_yields hy hend, ?_⟩
  intro t text j j' tokens hf ht
  obtain ⟨given, s', s'', j₁, rfl, hy, hend⟩ := Scan.collect_ok ht
  obtain ⟨calls, events, account⟩ := account_of_yields hy hend
  obtain ⟨answers, answered, rfl⟩ := account.answers
  rw [hf] at answered
  obtain ⟨nonempty, concat⟩ := answers_text answered
  rw [account.flushes] at concat
  refine ⟨calls, events, by simpa using account, by simpa using nonempty, by simpa using concat, ?_⟩
  intro keeps
  apply String.toList_inj.mp
  rw [← consumed_eq_shifted account.genuine keeps, account.consumes] at concat
  simpa [normalizeString] using concat

/-- A word and a line end. -/
theorem scan_accounts_for_text_line :
    ∃ s' j' s'' j'', Scan.Yields wordTable (Scan.start "ab\r\n" ({} : Journal Nat)).1
        (Scan.start "ab\r\n" {}).2 ["ab", "\n"] s' j' ∧
      Scan.pull wordTable s' j' = ⟨s'', j'', none⟩ ∧
      wordTable.tokens "ab\r\n" {} = (.ok #["ab", "\n"], j'') ∧
      (∃ calls events, Account wordTable "ab\r\n" {} j'' calls events ["ab", "\n"]) ∧
      String.join ["ab", "\n"] = normalizeString "ab\r\n" := by
  have pulled {s : Scan} {j : Journal Nat} {item : Option (Except Stop String)}
      (h : (Scan.pull wordTable s j).item = item) :
      Scan.pull wordTable s j =
        ⟨(Scan.pull wordTable s j).scan, (Scan.pull wordTable s j).journal, item⟩ := by
    rw [← h]
  obtain ⟨s', j', yields, nothing⟩ : ∃ s' j', Scan.Yields wordTable
      (Scan.start "ab\r\n" ({} : Journal Nat)).1 (Scan.start "ab\r\n" {}).2 ["ab", "\n"] s' j' ∧
      (Scan.pull wordTable s' j').item = none := by
    refine ⟨_, _, .cons (pulled ?_) (.cons (pulled ?_) (.nil _ _)), ?_⟩ <;> decide +kernel
  have whole := Scan.collect_of_yields yields (pulled nothing) #[]
  refine ⟨s', j', _, _, yields, pulled nothing, whole, ?_, ?_⟩
  · exact scan_accounts_for_text.1 _ _ _ _ _ _ _ _ yields (pulled nothing)
  · obtain ⟨calls, events, -, -, -, join⟩ := scan_accounts_for_text.2 _ _ _ _ _ rfl whole
    exact join (by simp [wordTable])

end TableLexer
