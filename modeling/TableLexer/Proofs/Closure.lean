import TableLexer.Proofs.Authored
import TableLexer.Proofs.Turns

/-!
# A built table is closed under every run

A `Bench` holds any number of machines and scans over one table, and operations come
to it in any order. Each operation may stop half way, with an error or a failure of
the factory, and the bench goes on with what is left. The invariant is that every
state number is one of the table's; it holds because every rule of a built table
leads to a state of the table.
-/

namespace TableLexer

variable {α τ : Type}

/-! ## Closed tables -/

namespace Table

/-- Every rule leads to a state of the table. -/
def Closed (t : Table α τ) : Prop :=
  ∀ row ∈ t.rows, ∀ rule ∈ row.rules, rule.next < t.stateCount

theorem stateCount_pos (t : Table α τ) : 0 < t.stateCount := t.nonempty

theorem lt_stateCount_iff {t : Table α τ} {id : Nat} :
    id < t.stateCount ↔ ∃ label, t.label? id = some label := by
  rw [stateCount, label?]
  cases h : t.rows[id]? with
  | none => simpa using h
  | some row => simpa using (Array.getElem?_eq_some_iff.mp h).1

theorem label?_ne_none {t : Table α τ} {id : Nat} (hid : id < t.stateCount) :
    t.label? id ≠ none := by
  obtain ⟨label, labelled⟩ := lt_stateCount_iff.mp hid
  simp [labelled]

theorem mem_labels_of_label? {t : Table α τ} {id : Nat} {label : α}
    (h : t.label? id = some label) : label ∈ t.labels := by
  rw [label?_eq_labels] at h
  exact List.mem_of_getElem? h

/-- Every rule of a faithful table is compiled from one that leads to a known state. -/
theorem Faithful.closed [DecidableEq α] {t : Table α τ} {init : α}
    {rules : List (α × DraftRule α)} {limits : Limits} (h : t.Faithful init rules limits) :
    t.Closed := by
  intro row hrow rule hrule
  obtain ⟨id, hid⟩ := Array.mem_iff_getElem?.mp hrow
  have labelled := label?_of_rows hid
  obtain ⟨id', row', number, hrow', -, compiled⟩ :=
    h.rows row.label (mem_labels_of_label? labelled)
  rw [(h.inverse row.label id).mpr labelled, Option.some.injEq] at number
  rw [← number, hid, Option.some.injEq] at hrow'
  subst hrow'
  obtain ⟨i, hi, rfl⟩ := List.mem_iff_getElem.mp hrule
  have next := (compiled.get (compiled.length_eq ▸ hi) hi).next
  exact lt_stateCount_iff.mpr ⟨_, (h.inverse _ _).mp next⟩

theorem Faithful.mem_ruled [DecidableEq α] {t : Table α τ} {init label : α}
    {rules : List (α × DraftRule α)} {limits : Limits} (h : t.Faithful init rules limits)
    (hm : label ∈ t.labels) : label ∈ ruled rules := by
  obtain ⟨id, row, -, -, nonempty, compiled⟩ := h.rows label hm
  by_contra unruled
  rw [rulesFor_eq_nil unruled] at compiled
  exact nonempty (List.forall₂_nil_left_iff.mp compiled)

/-- A table that some script builds. -/
def Built [DecidableEq α] [Described α] (t : Table α τ) : Prop :=
  ∃ init limits script j j',
    (((Draft.start init limits).run script j).1.build t.factory j').1 = .ok t

theorem Built.closed [DecidableEq α] [Described α] {t : Table α τ} (h : t.Built) : t.Closed := by
  obtain ⟨init, limits, script, j, j', built⟩ := h
  obtain ⟨-, blocks, -⟩ := Draft.run_start init limits script j
  exact (Draft.faithful_of_build blocks built).closed

end Table

/-! ## Benches -/

structure Bench (α : Type) where
  machines : List Machine := []
  scans : List Scan := []
  journal : Journal α := {}

/-- An operation, on the machine or scan of the given number. A consumer may have
received tokens before. -/
inductive Operation (τ : Type) where
  | machine
  | process (i : Nat) (ch : Char) (sink : Sink τ) (received : Array τ)
  | finish (i : Nat) (sink : Sink τ) (received : Array τ)
  | reset (i : Nat)
  | duplicate (i : Nat)
  | lex (text : String)
  | next (i : Nat)

/-- What an operation answers. -/
inductive Reply (τ : Type) where
  | silence
  | verdict (result : Except Stop Bool)
  | item (item : Option (Except Stop τ))

def Stop.error? : Stop → Option ScanError
  | .error e => some e
  | .fault _ | .hopOverflow => none

/-- The error that a result carries. -/
def failure? {β : Type} : Except Stop β → Option ScanError
  | .error stop => stop.error?
  | .ok _ => none

/-- The error that an answer carries. -/
def Reply.error? : Reply τ → Option ScanError
  | .silence => none
  | .verdict result => failure? result
  | .item answer => answer.bind failure?

/-- The text by which an error names a state. -/
def ScanError.stateText? : ScanError → Option String
  | .unhandled _ state => some state
  | .hopLimitExceeded _ state _ => some state
  | .unknownState _ => none

namespace Bench

/-- Every machine on the bench, those of its scans included. -/
def allMachines (b : Bench α) : List Machine := b.machines ++ b.scans.map (·.machine)

/-- Every state on the bench is one of the table's. -/
def Within (t : Table α τ) (b : Bench α) : Prop :=
  ∀ m ∈ b.allMachines, m.state < t.stateCount

theorem within_iff {t : Table α τ} {b : Bench α} :
    b.Within t ↔ (∀ m ∈ b.machines, m.state < t.stateCount) ∧
      ∀ s ∈ b.scans, s.machine.state < t.stateCount := by
  simp only [Within, allMachines, List.mem_append, List.mem_map]
  constructor
  · intro h
    exact ⟨fun m hm => h m (.inl hm), fun s hs => h s.machine (.inr ⟨s, hs, rfl⟩)⟩
  · rintro ⟨hmachines, hscans⟩ m (hm | ⟨s, hs, rfl⟩)
    · exact hmachines m hm
    · exact hscans s hs

theorem within_add {t : Table α τ} {b : Bench α} (h : b.Within t) :
    Within t { b with machines := b.machines ++ [{}] } := by
  obtain ⟨hmachines, hscans⟩ := within_iff.mp h
  refine within_iff.mpr ⟨?_, hscans⟩
  intro m hm
  obtain hm | hm := List.mem_append.mp hm
  · exact hmachines m hm
  · rw [List.mem_singleton.mp hm]
    exact t.stateCount_pos

theorem within_set {t : Table α τ} {b : Bench α} (h : b.Within t) (i : Nat) {m : Machine}
    (hm : m.state < t.stateCount) (j : Journal α) :
    Within t { b with machines := b.machines.set i m, journal := j } := by
  obtain ⟨hmachines, hscans⟩ := within_iff.mp h
  refine within_iff.mpr ⟨?_, hscans⟩
  intro m' hm'
  obtain hm' | rfl := List.mem_or_eq_of_mem_set hm'
  · exact hmachines m' hm'
  · exact hm

/-- Put what an operation leaves of machine `i` back on the bench. -/
def settle (b : Bench α) (i : Nat) (d : Delivery α τ) : Bench α × Reply τ :=
  ({ b with machines := b.machines.set i d.machine, journal := d.journal }, .verdict d.result)

variable [Described α]

def step (t : Table α τ) (b : Bench α) : Operation τ → Bench α × Reply τ
  | .machine => ({ b with machines := b.machines ++ [{}] }, .silence)
  | .process i ch sink received =>
    match b.machines[i]? with
    | none => (b, .silence)
    | some m => b.settle i (m.feed t sink ch received b.journal)
  | .finish i sink received =>
    match b.machines[i]? with
    | none => (b, .silence)
    | some m => b.settle i (m.close t sink received b.journal)
  | .reset i => ({ b with machines := b.machines.set i {} }, .silence)
  | .duplicate i =>
    match b.machines[i]? with
    | none => (b, .silence)
    | some _ => ({ b with machines := b.machines ++ [{}] }, .silence)
  | .lex text =>
    let (s, j) := Scan.start text b.journal
    ({ b with scans := b.scans ++ [s], journal := j }, .silence)
  | .next i =>
    match b.scans[i]? with
    | none => (b, .silence)
    | some s =>
      let p := s.pull t b.journal
      ({ b with scans := b.scans.set i p.scan, journal := p.journal }, .item p.item)

/-- Carry out operations one after the other, whatever they answer. -/
def run (t : Table α τ) (b : Bench α) : List (Operation τ) → Bench α × List (Reply τ)
  | [] => (b, [])
  | operation :: operations =>
    let (b, reply) := b.step t operation
    let (b, replies) := b.run t operations
    (b, reply :: replies)

end Bench

/-! ## One operation -/

variable [Described α]

/-- An error that names a state of the table by its label. -/
def Table.Names (t : Table α τ) (e : ScanError) : Prop :=
  ∃ label ∈ t.labels, e.stateText? = some (describe label)

/-- A machine within the table, and no error but one that names a state. -/
structure Table.Sound (t : Table α τ) (m : Machine) (error? : Option ScanError) : Prop where
  within : m.state < t.stateCount
  named : ∀ e, error? = some e → t.Names e

namespace Table.Sound

theorem silent {t : Table α τ} {m : Machine} (hm : m.state < t.stateCount) : t.Sound m none :=
  ⟨hm, by simp⟩

/-- An error may name the state that the machine is in. -/
theorem naming {t : Table α τ} {m : Machine} {e : ScanError} (hm : m.state < t.stateCount)
    (h : e.stateText? = some (t.stateText m.state)) : t.Sound m (some e) := by
  obtain ⟨label, hl⟩ := lt_stateCount_iff.mp hm
  refine ⟨hm, ?_⟩
  intro e' he
  cases he
  exact ⟨label, mem_labels_of_label? hl, by simp [h, stateText, hl]⟩

end Table.Sound

namespace Machine

theorem sound_fire {t : Table α τ} (closed : t.Closed) {m m' : Machine} {ch : Char} {hops : Nat}
    {j k : Journal α} {r : Except Stop (Reaction τ)} (hm : m.state < t.stateCount)
    (fired : m.fire t ch hops j = ⟨m', k, r⟩) : t.Sound m' (failure? r) := by
  have moves {rule : Rule} (selected : t.select m.state ch = .ok rule) :
      rule.next < t.stateCount := by
    obtain ⟨row, hrow, hrule, -⟩ := Table.select_ok selected
    exact closed row (Array.mem_of_getElem? hrow) rule hrule
  have fires := fires_fire t m ch hops j
  rw [fired] at fires
  cases fires with
  | overLimit beyond => exact .naming hm rfl
  | noRule within missing =>
    obtain ⟨hnone, rfl⟩ | ⟨row, hrow, -, rfl⟩ := Table.select_error missing
    · exact absurd hm (by simpa [Table.stateCount] using hnone)
    · exact .naming hm rfl
  -- the state has moved, whether or not the factory answers
  | kept within selected keeps => exact .silent (moves selected)
  | failed within selected flushes labelled answer => exact .silent (moves selected)
  | flushed within selected flushes labelled answer => exact .silent (moves selected)

theorem sound_flushEnd {t : Table α τ} {m m' : Machine} {j k : Journal α}
    {r : Except Stop (Option τ)} (hm : m.state < t.stateCount)
    (flushed : m.flushEnd t j = ⟨m', k, r⟩) : t.Sound m' (failure? r) := by
  have closes := closes_flushEnd t m j
  rw [flushed] at closes
  cases closes with
  | unknown unlabelled => exact absurd unlabelled (Table.label?_ne_none hm)
  | failed labelled answer => exact .silent hm
  | flushed labelled answer => exact .silent t.stateCount_pos

theorem sound_feedFrom {t : Table α τ} (closed : t.Closed) (sink : Sink τ) {m : Machine}
    (ch : Char) (hops : Nat) (received : Array τ) (j : Journal α) (hm : m.state < t.stateCount) :
    t.Sound (m.feedFrom t sink ch hops received j).machine
      (failure? (m.feedFrom t sink ch hops received j).result) := by
  fun_induction feedFrom t sink m ch hops received j with
  | case1 m hops received j m' j' stop fired => exact sound_fire closed hm fired
  | case2 m hops received j m' j' token fired received' verdict delivered =>
    exact sound_fire closed hm fired
  | case3 m hops received j m' j' token fired received' delivered =>
    exact sound_fire closed hm fired
  | case4 m hops received j m' j' token fired received' delivered hlt ih =>
    exact ih (sound_fire closed hm fired).within
  | case5 m hops received j m' j' token fired received' delivered hge =>
    exact sound_fire closed hm fired

theorem sound_close {t : Table α τ} (sink : Sink τ) {m : Machine} (received : Array τ)
    (j : Journal α) (hm : m.state < t.stateCount) :
    t.Sound (m.close t sink received j).machine
      (failure? (m.close t sink received j).result) := by
  unfold close
  rcases flushed : m.flushEnd t j with ⟨m', j', stop | token⟩
  · exact sound_flushEnd hm flushed
  · exact sound_flushEnd hm flushed

end Machine

namespace Scan

theorem sound_finish {t : Table α τ} {m : Machine} (j : Journal α) (hm : m.state < t.stateCount) :
    t.Sound (finish t m j).scan.machine ((finish t m j).item.bind failure?) := by
  unfold finish
  rcases flushed : m.flushEnd t j with ⟨m', j', stop | _ | token⟩
  · exact Machine.sound_flushEnd hm flushed
  · exact Machine.sound_flushEnd hm flushed
  · exact Machine.sound_flushEnd hm flushed

theorem sound_pull {t : Table α τ} (closed : t.Closed) {s : Scan} (j : Journal α)
    (hm : s.machine.state < t.stateCount) :
    t.Sound (pull t s j).scan.machine ((pull t s j).item.bind failure?) := by
  revert hm
  refine pull_induction (motive := fun s _ p => s.machine.state < t.stateCount →
    t.Sound p.scan.machine (p.item.bind failure?)) ?_ ?_ s j
  · intro s j p turns hm
    cases turns with
    | idle done => exact .silent hm
    | ended undone nothing => exact sound_finish j hm
    | failed undone up fired => exact Machine.sound_fire closed hm fired
    | overflowed undone up fired stuck => exact Machine.sound_fire closed hm fired
    | gave undone up fired next given =>
      dsimp only
      rw [machine_after next]
      exact Machine.sound_fire closed hm fired
  · intro s j s' j' p turns later hm
    cases turns with
    | quiet undone up fired next silent =>
      apply later
      rw [machine_after next]
      exact (Machine.sound_fire closed hm fired).within

end Scan

/-! ## Every run -/

namespace Bench

theorem within_settle {t : Table α τ} {b : Bench α} (h : b.Within t) (i : Nat)
    {d : Delivery α τ} (hd : t.Sound d.machine (failure? d.result)) :
    (b.settle i d).1.Within t ∧ ∀ e, (b.settle i d).2.error? = some e → t.Names e :=
  ⟨within_set h i hd.within _, hd.named⟩

/-- An operation keeps the bench within the table, and its error names a state. -/
theorem step_within {t : Table α τ} (closed : t.Closed) {b : Bench α} (h : b.Within t)
    (operation : Operation τ) :
    (b.step t operation).1.Within t ∧
      ∀ e, (b.step t operation).2.error? = some e → t.Names e := by
  obtain ⟨hmachines, hscans⟩ := within_iff.mp h
  have idle : (b, (.silence : Reply τ)).1.Within t ∧
      ∀ e, (b, (.silence : Reply τ)).2.error? = some e → t.Names e :=
    ⟨h, by rintro e ⟨⟩⟩
  cases operation with
  | machine => exact ⟨within_add h, by rintro e ⟨⟩⟩
  | process i ch sink received =>
    simp only [step]
    cases hi : b.machines[i]? with
    | none => exact idle
    | some m =>
      have hm := hmachines m (List.mem_of_getElem? hi)
      exact within_settle h i (Machine.sound_feedFrom closed sink ch 0 received b.journal hm)
  | finish i sink received =>
    simp only [step]
    cases hi : b.machines[i]? with
    | none => exact idle
    | some m =>
      have hm := hmachines m (List.mem_of_getElem? hi)
      exact within_settle h i (Machine.sound_close sink received b.journal hm)
  | reset i => exact ⟨within_set h i t.stateCount_pos b.journal, by rintro e ⟨⟩⟩
  | duplicate i =>
    simp only [step]
    cases hi : b.machines[i]? with
    | none => exact idle
    | some m => exact ⟨within_add h, by rintro e ⟨⟩⟩
  | lex text =>
    refine ⟨within_iff.mpr ⟨hmachines, ?_⟩, by rintro e ⟨⟩⟩
    intro s hs
    obtain hs | hs := List.mem_append.mp hs
    · exact hscans s hs
    · rw [List.mem_singleton.mp hs]
      exact t.stateCount_pos
  | next i =>
    simp only [step]
    cases hi : b.scans[i]? with
    | none => exact idle
    | some s =>
      have sound := Scan.sound_pull closed b.journal (hscans s (List.mem_of_getElem? hi))
      refine ⟨within_iff.mpr ⟨hmachines, ?_⟩, sound.named⟩
      intro s' hs'
      obtain hs' | rfl := List.mem_or_eq_of_mem_set hs'
      · exact hscans s' hs'
      · exact sound.within

theorem run_within {t : Table α τ} (closed : t.Closed) {b : Bench α} (h : b.Within t)
    (operations : List (Operation τ)) :
    (b.run t operations).1.Within t ∧
      ∀ reply ∈ (b.run t operations).2, ∀ e, reply.error? = some e → t.Names e := by
  induction operations generalizing b with
  | nil => exact ⟨h, by simp [run]⟩
  | cons operation operations ih =>
    obtain ⟨hstep, named⟩ := step_within closed h operation
    obtain ⟨hrun, named'⟩ := ih hstep
    refine ⟨hrun, ?_⟩
    intro reply hm
    obtain rfl | hm := List.mem_cons.mp hm
    · exact named
    · exact named' reply hm

end Bench

/-- However machines and scans over a built table are used, every state is one of the
table's and has its label, and every error names a state by an authored label. -/
theorem Bench.run_stays_within_built_table [DecidableEq α] (init : α) (limits : Limits)
    (script : List (Directive α)) (factory : Factory α τ) (j₀ j₁ j : Journal α) (t : Table α τ)
    (h : (((Draft.start init limits).run script j₀).1.build factory j₁).1 = .ok t)
    (operations : List (Operation τ)) :
    (∀ m ∈ (run t { journal := j } operations).1.allMachines,
      m.state < t.stateCount ∧ t.label? m.state = some (m.label t)) ∧
    ∀ reply ∈ (run t { journal := j } operations).2, ∀ e, reply.error? = some e →
      (∀ id, e ≠ .unknownState id) ∧
      (∃ label ∈ ruled (authored init script), e.stateText? = some (describe label)) ∧
      ∀ n : Nat, (∀ label ∈ ruled (authored init script), describe label ≠ "#" ++ describe n) →
        e.stateText? ≠ some ("#" ++ describe n) := by
  obtain ⟨-, hblocks, -⟩ := Draft.run_start init limits script j₀
  have faithful := Draft.faithful_of_build hblocks h
  have empty : ({ journal := j } : Bench α).Within t := by simp [Within, allMachines]
  obtain ⟨within, named⟩ := run_within faithful.closed empty operations
  constructor
  · intro m hm
    obtain ⟨label, hl⟩ := Table.lt_stateCount_iff.mp (within m hm)
    exact ⟨within m hm, by simp [Machine.label, hl]⟩
  · intro reply hm e he
    obtain ⟨label, hl, htext⟩ := named reply hm e he
    have authored := faithful.mem_ruled hl
    refine ⟨?_, ⟨label, authored, htext⟩, ?_⟩
    · rintro id rfl
      cases htext
    · intro n apart heq
      exact apart label authored (Option.some.inj (htext.symm.trans heq))

/-- Words of the letter a, with a label that tells whether one has begun. Nothing but
a word may begin. -/
def Draft.letterScript : List (Directive Bool) :=
  [.on (.only 'a') .shift true, .add true (.only 'a') .shift true, .add true .any .reduce false]

/-- Their table, with a factory that fails when it is called first. -/
def letterTable : Table Bool String :=
  ((Draft.start false {}).run Draft.letterScript {}).1.toTable fun earlier call =>
    if earlier.isEmpty then .error ⟨none⟩ else Factory.text earlier call

/-- Their table with a factory that takes the words as they stand. -/
def letterWords : Table Bool String :=
  ((Draft.start false {}).run Draft.letterScript {}).1.toTable .text

theorem built_letterWords : letterWords.Built :=
  ⟨false, {}, Draft.letterScript, {}, {}, rfl⟩

/-- The first space makes the factory fail, and the second one has no rule. -/
def Operation.mixed : List (Operation String) :=
  [.machine, .process 0 'a' (fun _ => true) #[], .process 0 ' ' (fun _ => true) #[],
    .lex "a b", .duplicate 0, .next 0, .process 0 'a' (fun _ => false) #[], .next 0]

/-- The failure leaves the machine moved with its text, and the error names a label. -/
theorem Bench.run_stays_within_letters :
    (((Draft.start false {}).run Draft.letterScript {}).1.build letterTable.factory {}).1 =
        .ok letterTable ∧
      (run letterTable {} Operation.mixed).1.allMachines = [⟨1, "aa"⟩, ⟨0, ""⟩, ⟨0, ""⟩] ∧
      (run letterTable {} Operation.mixed).2.filterMap Reply.error? = [.unhandled ' ' "false"] ∧
      ∃ label ∈ ruled (authored false Draft.letterScript), "false" = describe label := by
  have built : (((Draft.start false {}).run Draft.letterScript {}).1.build
      letterTable.factory {}).1 = .ok letterTable := rfl
  have errors : (run letterTable {} Operation.mixed).2.filterMap Reply.error? =
      [.unhandled ' ' "false"] := by decide +kernel
  refine ⟨built, by decide +kernel, errors, ?_⟩
  obtain ⟨reply, hreply, he⟩ := List.mem_filterMap.mp (errors ▸ List.mem_singleton_self _)
  obtain ⟨-, named⟩ :=
    run_stays_within_built_table false {} Draft.letterScript _ {} {} {} _ built Operation.mixed
  obtain ⟨-, ⟨label, hl, htext⟩, -⟩ := named reply hreply _ he
  exact ⟨label, hl, Option.some.inj htext⟩

end TableLexer
