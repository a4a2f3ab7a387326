import TableLexer.Proofs.Closure
import TableLexer.Proofs.Transcripts

/-!
# What becomes of one character

A character that meets a zero-width rule is looked at again in the next state. The
states that it goes through in this way are its chain: `hopped t c id n` is the state
after `n` hops. The chain alone decides what becomes of the character (`Feeds`). It is
consumed where the chain ends within the limit with a rule, it is unhandled where the
chain ends there without one, and otherwise it takes too many hops.
-/

namespace TableLexer

variable {α τ : Type}

namespace Table

/-- The first rule of state `id` that accepts `c`. -/
def choice (t : Table α τ) (id : Nat) (c : Char) : Option Rule :=
  t.rows[id]?.bind fun row => row.rules.find? fun rule => rule.pattern.accepts c

/-- The state that `c` is looked at again in, if the rule for it has no width. -/
def hop (t : Table α τ) (c : Char) (id : Nat) : Option Nat :=
  (t.choice id c).bind fun rule => if rule.action.isZeroWidth then some rule.next else none

/-- The state after `n` hops of `c` from `id`, if there are so many. -/
def hopped (t : Table α τ) (c : Char) (id : Nat) : Nat → Option Nat
  | 0 => some id
  | n + 1 => (t.hopped c id n).bind (t.hop c)

theorem choice_eq_some_iff [Described α] {t : Table α τ} {id : Nat} {c : Char} {rule : Rule} :
    t.choice id c = some rule ↔ t.select id c = .ok rule := by
  unfold choice select
  cases t.rows[id]? with
  | none => simp
  | some row =>
    dsimp only [Option.bind_some]
    rw [Rule.first_fst]
    cases row.rules.find? fun rule => rule.pattern.accepts c <;> simp

/-- A state with a rule for everything after another one has a rule for every character. -/
theorem choice_of_two_rules {t : Table α τ} {id : Nat} {label : α} {rule other : Rule}
    (hrow : t.rows[id]? = some ⟨label, [rule, other]⟩) (hany : other.pattern = .any) (ch : Char) :
    t.choice id ch = some (if rule.pattern.accepts ch then rule else other) := by
  cases accepted : rule.pattern.accepts ch <;>
    simp [choice, hrow, List.find?, accepted, hany, Predicate.accepts]

theorem hop_of_choice {t : Table α τ} {id : Nat} {c : Char} {rule : Rule}
    (h : t.choice id c = some rule) :
    t.hop c id = if rule.action.isZeroWidth then some rule.next else none := by
  simp [hop, h]

/-- The chain from the next state is the rest of the chain. -/
theorem hopped_of_hop {t : Table α τ} {c : Char} {id id' : Nat} (h : t.hop c id = some id')
    (n : Nat) : t.hopped c id (n + 1) = t.hopped c id' n := by
  induction n with
  | zero => simp [hopped, h]
  | succ n ih => rw [hopped, ih, hopped]

/-- A chain that has ended does not go on. -/
theorem hopped_of_ended {t : Table α τ} {c : Char} {id id' n k : Nat}
    (h : t.hopped c id n = some id') (ended : t.hop c id' = none) (hk : n < k) :
    t.hopped c id k = none := by
  induction k with
  | zero => omega
  | succ k ih =>
    rw [hopped]
    by_cases hn : n = k
    · subst hn
      simp [h, ended]
    · simp [ih (by omega)]

/-- A chain ends in one state only. -/
theorem end_unique {t : Table α τ} {c : Char} {id a b n k : Nat}
    (ha : t.hopped c id n = some a) (endA : t.hop c a = none)
    (hb : t.hopped c id k = some b) (endB : t.hop c b = none) : a = b := by
  have same : n = k := by
    by_contra hne
    rcases Nat.lt_or_gt_of_ne hne with hlt | hlt
    · simp [hopped_of_ended ha endA hlt] at hb
    · simp [hopped_of_ended hb endB hlt] at ha
  subst same
  exact Option.some.inj (ha.symm.trans hb)

theorem hopped_lt {t : Table α τ} (closed : t.Closed) {c : Char} {id id' : Nat}
    (hid : id < t.stateCount) {n : Nat} (h : t.hopped c id n = some id') :
    id' < t.stateCount := by
  induction n generalizing id' with
  | zero =>
    cases h
    exact hid
  | succ n ih =>
    simp only [hopped, hop, choice, Option.bind_eq_some_iff] at h
    obtain ⟨mid, -, rule, ⟨row, hrow, hrule⟩, hnext⟩ := h
    split at hnext
    · cases hnext
      exact closed row (Array.mem_of_getElem? hrow) rule (List.mem_of_find?_eq_some hrule)
    · cases hnext

/-- No scan gets past `c` in state `id`: the chain ends within the limit in a state
without a rule for `c`, or it does not end within the limit. -/
def Blocks (t : Table α τ) (c : Char) (id : Nat) : Prop :=
  (∃ n ≤ t.limits.maxHops.toNat, ∃ id', t.hopped c id n = some id' ∧ t.choice id' c = none) ∨
    ∃ id', t.hopped c id (t.limits.maxHops.toNat + 1) = some id'

/-! ## Where a chain ends -/

/-- The action of the rule that `c` meets after `n` hops from `id`. -/
def met (t : Table α τ) (c : Char) (id n : Nat) : Option Action :=
  ((t.hopped c id n).bind fun id' => t.choice id' c).map (·.action)

/-- After `n` hops `c` meets a rule that consumes it. -/
def ConsumedAt (t : Table α τ) (c : Char) (id n : Nat) (rule : Rule) : Prop :=
  ∃ id', t.hopped c id n = some id' ∧ t.choice id' c = some rule ∧
    rule.action.isZeroWidth = false

/-- After `n` hops `c` is in state `id'`, which has no rule for it. -/
def MissingAt (t : Table α τ) (c : Char) (id n id' : Nat) : Prop :=
  t.hopped c id n = some id' ∧ t.choice id' c = none

/-- After `n` hops `c` meets a rule that makes it hop once more. -/
def HopsAt (t : Table α τ) (c : Char) (id n : Nat) : Prop :=
  ∃ id' rule, t.hopped c id n = some id' ∧ t.choice id' c = some rule ∧
    rule.action.isZeroWidth = true

theorem hop_eq_some {t : Table α τ} {c : Char} {id id' : Nat} (h : t.hop c id = some id') :
    ∃ rule, t.choice id c = some rule ∧ rule.action.isZeroWidth = true ∧ rule.next = id' := by
  simp only [hop, Option.bind_eq_some_iff] at h
  obtain ⟨rule, chosen, next⟩ := h
  split at next
  · next narrow => exact ⟨rule, chosen, narrow, Option.some.inj next⟩
  · cases next

/-- A chain has one more hop exactly if the rule at its end has no width. -/
theorem hopped_succ_iff {t : Table α τ} {c : Char} {id n : Nat} :
    (∃ id', t.hopped c id (n + 1) = some id') ↔ t.HopsAt c id n := by
  constructor
  · rintro ⟨id', chain⟩
    rw [hopped, Option.bind_eq_some_iff] at chain
    obtain ⟨mid, chain, hop⟩ := chain
    obtain ⟨rule, chosen, narrow, -⟩ := hop_eq_some hop
    exact ⟨mid, rule, chain, chosen, narrow⟩
  · rintro ⟨mid, rule, chain, chosen, narrow⟩
    exact ⟨rule.next, by simp [hopped, chain, hop_of_choice chosen, narrow]⟩

/-- A chain has `n` hops exactly if each of the first `n` rules has no width. -/
theorem hopped_iff {t : Table α τ} {c : Char} {id n : Nat} :
    (∃ id', t.hopped c id n = some id') ↔ ∀ k < n, t.HopsAt c id k := by
  induction n with
  | zero => exact ⟨fun _ k hk => by omega, fun _ => ⟨id, rfl⟩⟩
  | succ n ih =>
    rw [hopped_succ_iff]
    constructor
    · intro last k hk
      obtain ⟨mid, rule, before, chosen, narrow⟩ := last
      by_cases he : k = n
      · subst he
        exact ⟨mid, rule, before, chosen, narrow⟩
      · exact ih.mp ⟨mid, before⟩ k (by omega)
    · intro each
      exact each n (Nat.lt_succ_self n)

/-- At the end of a chain a character is consumed, or has no rule, or hops on. -/
theorem end_cases {t : Table α τ} {c : Char} {id id' n : Nat}
    (chain : t.hopped c id n = some id') :
    (∃ rule, t.ConsumedAt c id n rule) ∨ t.MissingAt c id n id' ∨ t.HopsAt c id n := by
  cases chosen : t.choice id' c with
  | none => exact .inr (.inl ⟨chain, chosen⟩)
  | some rule =>
    cases narrow : rule.action.isZeroWidth with
    | false => exact .inl ⟨rule, id', chain, chosen, narrow⟩
    | true => exact .inr (.inr ⟨id', rule, chain, chosen, narrow⟩)

/-- A character that does not take `n` hops is consumed, or has no rule, before that. -/
theorem chain_cases (t : Table α τ) (c : Char) (id n : Nat) :
    (∃ k < n, ∃ rule, t.ConsumedAt c id k rule) ∨
      (∃ k < n, ∃ id', t.MissingAt c id k id') ∨ ∃ id', t.hopped c id n = some id' := by
  induction n with
  | zero => exact .inr (.inr ⟨id, rfl⟩)
  | succ n ih =>
    obtain ⟨k, hk, consumed⟩ | ⟨k, hk, missing⟩ | ⟨id', chain⟩ := ih
    · exact .inl ⟨k, by omega, consumed⟩
    · exact .inr (.inl ⟨k, by omega, missing⟩)
    · obtain consumed | missing | hops := end_cases chain
      · exact .inl ⟨n, by omega, consumed⟩
      · exact .inr (.inl ⟨n, by omega, id', missing⟩)
      · exact .inr (.inr (hopped_succ_iff.mpr hops))

/-- A state of the table without a rule for a character refuses it. -/
theorem select_of_choice_none [Described α] {t : Table α τ} {id : Nat} {c : Char}
    (hid : id < t.stateCount) (missing : t.choice id c = none) :
    t.select id c = .error (.unhandled c (t.stateText id)) := by
  cases selected : t.select id c with
  | ok rule =>
    rw [choice_eq_some_iff.mpr selected] at missing
    cases missing
  | error e =>
    obtain ⟨unknown, -⟩ | ⟨row, hrow, -, rfl⟩ := select_error selected
    · exact absurd hid (by simpa [stateCount] using unknown)
    · rfl

end Table

/-! ## Hops of a machine -/

namespace Machine

/-- What is held after a flush, if there is one. -/
def keep (held : String) (action : Action) : String := if action.flushes then "" else held

/-- The text held after `n` hops of `ch`: that of `m` if they all defer, and none if
one of them reduces. -/
structure HeldAfter (t : Table α τ) (ch : Char) (m : Machine) (n : Nat) (held : String) :
    Prop where
  deferred : (∀ i < n, t.met ch m.state i = some .defer) → held = m.held
  reduced : (∃ i < n, t.met ch m.state i = some .reduce) → held = ""

theorem HeldAfter.zero (t : Table α τ) (ch : Char) (m : Machine) : HeldAfter t ch m 0 m.held :=
  ⟨fun _ => rfl, by rintro ⟨i, hi, -⟩; omega⟩

/-- One more hop keeps the text or lets it go. -/
theorem HeldAfter.succ {t : Table α τ} {ch : Char} {m : Machine} {n : Nat} {held : String}
    {action : Action} (h : HeldAfter t ch m n held) (met : t.met ch m.state n = some action)
    (narrow : action.isZeroWidth = true) : HeldAfter t ch m (n + 1) (keep held action) := by
  cases action with
  | defer =>
    constructor
    · intro all
      exact h.deferred fun i hi => all i (by omega)
    · rintro ⟨i, hi, reduces⟩
      have before : i ≠ n := by
        rintro rfl
        rw [met] at reduces
        cases reduces
      exact h.reduced ⟨i, by omega, reduces⟩
  | reduce =>
    constructor
    · intro all
      have deferred := all n (by omega)
      rw [met] at deferred
      cases deferred
    · intro _
      rfl
  | shift | shiftReduce | skip | skipReduce => cases narrow

theorem held_move_of_narrow {rule : Rule} (narrow : rule.action.isZeroWidth = true) (m : Machine)
    (ch : Char) : (m.move rule ch).held = m.held := by
  cases ha : rule.action <;> simp_all [move, Action.shifts, Action.isZeroWidth]

/-- A consumer that wants everything. -/
def Eager (sink : Sink τ) : Prop := ∀ received, sink received = true

theorem deliver_eager {sink : Sink τ} (eager : Eager sink) (received : Array τ)
    (token : Option τ) : (deliver sink received token).2 = true := by
  cases token with
  | none => rfl
  | some token => exact eager _

variable [Described α] {t : Table α τ}

/-- The rule that is chosen fires, where the limit and the factory allow it. -/
theorem fire_chosen (total : t.factory.Total) {m : Machine} {ch : Char} {hops : Nat} {rule : Rule}
    (within : hops ≤ t.limits.maxHops.toNat) (chosen : t.choice m.state ch = some rule)
    (j : Journal α) :
    ∃ token k, m.fire t ch hops j = ⟨⟨rule.next, keep (m.move rule ch).held rule.action⟩, k,
      .ok (Reaction.of rule.action token)⟩ := by
  have selected := Table.choice_eq_some_iff.mp chosen
  cases flushes : rule.action.flushes with
  | false =>
    simp only [keep, flushes, Bool.false_eq_true, if_false]
    exact ⟨none, _, (Fires.kept within selected flushes).eq⟩
  | true =>
    obtain ⟨label, labelled⟩ := Table.label?_of_select selected
    obtain ⟨token, answer⟩ := total j.calls ⟨label, (m.move rule ch).held, false⟩
    simp only [keep, flushes, if_true]
    exact ⟨token, _, (Fires.flushed within selected flushes labelled answer).eq⟩

section

variable (total : t.factory.Total) {sink : Sink τ} (eager : Eager sink) {m : Machine} {ch : Char}
  (hops : Nat)
include total eager

/-- A hop within the limit changes the state, lets go of the text if it flushes, and
goes on with one more hop to its account. -/
theorem feedFrom_hop (room : hops < hopCeiling) {rule : Rule}
    (within : hops ≤ t.limits.maxHops.toNat) (chosen : t.choice m.state ch = some rule)
    (narrow : rule.action.isZeroWidth = true) (received : Array τ) (j : Journal α) :
    ∃ received' j', m.feedFrom t sink ch hops received j =
      feedFrom t sink ⟨rule.next, keep m.held rule.action⟩ ch (hops + 1) received' j' := by
  obtain ⟨token, k, fired⟩ := fire_chosen total within chosen j
  have wants := deliver_eager eager received token
  rw [feedFrom, fired, held_move_of_narrow narrow]
  rcases delivered : deliver sink received token with ⟨received', verdict⟩
  rw [delivered] at wants
  subst wants
  exact ⟨received', k, by simp [Reaction.of, narrow, delivered, room]⟩

/-- The loop from the beginning of a chain is the loop from any later place on it. -/
theorem feedFrom_hopped {n id : Nat} (room : hops + n ≤ hopCeiling)
    (bound : hops + n ≤ t.limits.maxHops.toNat + 1) (chain : t.hopped ch m.state n = some id)
    (received : Array τ) (j : Journal α) :
    ∃ held received' j', m.feedFrom t sink ch hops received j =
      feedFrom t sink ⟨id, held⟩ ch (hops + n) received' j' ∧ HeldAfter t ch m n held := by
  induction n generalizing id with
  | zero =>
    cases chain
    exact ⟨m.held, received, j, rfl, .zero t ch m⟩
  | succ n ih =>
    rw [Table.hopped, Option.bind_eq_some_iff] at chain
    obtain ⟨mid, chain, hop⟩ := chain
    obtain ⟨rule, chosen, narrow, rfl⟩ := Table.hop_eq_some hop
    obtain ⟨held, received', j', same, after⟩ := ih (by omega) (by omega) chain
    obtain ⟨received'', j'', next⟩ := feedFrom_hop total eager (m := ⟨mid, held⟩)
      (hops + n) (by omega) (by omega) chosen narrow received' j'
    have met : t.met ch m.state n = some rule.action := by simp [Table.met, chain, chosen]
    exact ⟨_, received'', j'', same.trans next, after.succ met narrow⟩

/-- The rule at the end of a chain consumes the character. -/
theorem feedFrom_consumedAt (hl : t.limits.maxHops.toNat < hopCeiling) {n : Nat} {rule : Rule}
    (within : hops + n ≤ t.limits.maxHops.toNat) (h : t.ConsumedAt ch m.state n rule)
    (received : Array τ) (j : Journal α) :
    (m.feedFrom t sink ch hops received j).result = .ok true ∧
      (m.feedFrom t sink ch hops received j).machine.state = rule.next := by
  obtain ⟨id, chain, chosen, wide⟩ := h
  obtain ⟨held, received', j', same, -⟩ :=
    feedFrom_hopped total eager hops (by omega) (by omega) chain received j
  obtain ⟨token, k, fired⟩ := fire_chosen total (m := ⟨id, held⟩) within chosen j'
  have wants := deliver_eager eager received' token
  rw [same, feedFrom, fired]
  simp [Reaction.of, wide, wants]

/-- A chain that ends without a rule leaves the machine where it ends. -/
theorem feedFrom_missingAt (closed : t.Closed) (hm : m.state < t.stateCount)
    (hl : t.limits.maxHops.toNat < hopCeiling) {n id : Nat}
    (within : hops + n ≤ t.limits.maxHops.toNat) (h : t.MissingAt ch m.state n id)
    (received : Array τ) (j : Journal α) :
    (m.feedFrom t sink ch hops received j).result =
        .error (.error (.unhandled ch (t.stateText id))) ∧
      (m.feedFrom t sink ch hops received j).machine.state = id ∧
      HeldAfter t ch m n (m.feedFrom t sink ch hops received j).machine.held := by
  obtain ⟨chain, missing⟩ := h
  obtain ⟨held, received', j', same, after⟩ :=
    feedFrom_hopped total eager hops (by omega) (by omega) chain received j
  have selected := Table.select_of_choice_none (Table.hopped_lt closed hm chain) missing
  rw [same, feedFrom, (Fires.noRule (m := ⟨id, held⟩) within selected).eq]
  exact ⟨rfl, rfl, after⟩

/-- A chain that is too long leaves the machine one hop beyond the limit, whatever rules
there are in that state. -/
theorem feedFrom_exceeded (hl : t.limits.maxHops.toNat < hopCeiling) {n id : Nat}
    (beyond : hops + n = t.limits.maxHops.toNat + 1) (chain : t.hopped ch m.state n = some id)
    (received : Array τ) (j : Journal α) :
    (m.feedFrom t sink ch hops received j).result =
        .error (.error (.hopLimitExceeded ch (t.stateText id) t.limits.maxHops)) ∧
      (m.feedFrom t sink ch hops received j).machine.state = id ∧
      HeldAfter t ch m n (m.feedFrom t sink ch hops received j).machine.held := by
  obtain ⟨held, received', j', same, after⟩ :=
    feedFrom_hopped total eager hops (by omega) (by omega) chain received j
  rw [same, feedFrom, (Fires.overLimit (m := ⟨id, held⟩) (by omega)).eq]
  exact ⟨rfl, rfl, after⟩

end

end Machine

/-! ## What a character comes to -/

variable [Described α]

/-- The result of a character that has taken `hops` hops and is in state `id`, and the
state that it leaves. -/
inductive Feeds (t : Table α τ) (ch : Char) (id hops : Nat) : Except Stop Bool → Nat → Prop where
  | consumed {n id' : Nat} {rule : Rule} (within : hops + n ≤ t.limits.maxHops.toNat)
      (chain : t.hopped ch id n = some id') (chosen : t.choice id' ch = some rule)
      (wide : rule.action.isZeroWidth = false) :
    Feeds t ch id hops (.ok true) rule.next
  | unhandled {n id' : Nat} (within : hops + n ≤ t.limits.maxHops.toNat)
      (chain : t.hopped ch id n = some id') (missing : t.choice id' ch = none) :
    Feeds t ch id hops (.error (.error (.unhandled ch (t.stateText id')))) id'
  | exceeded {n id' : Nat} (beyond : hops + n = t.limits.maxHops.toNat + 1)
      (chain : t.hopped ch id n = some id') :
    Feeds t ch id hops
      (.error (.error (.hopLimitExceeded ch (t.stateText id') t.limits.maxHops))) id'

/-- Feeding a character to a machine comes to what the chain of the character says. -/
theorem Machine.feeds_feedFrom {t : Table α τ} (closed : t.Closed)
    (hl : t.limits.maxHops.toNat < hopCeiling) (total : t.factory.Total) {sink : Sink τ}
    (eager : Eager sink) (m : Machine) (ch : Char) (hops : Nat) (received : Array τ)
    (j : Journal α) (hm : m.state < t.stateCount) (hh : hops ≤ t.limits.maxHops.toNat + 1) :
    Feeds t ch m.state hops (m.feedFrom t sink ch hops received j).result
      (m.feedFrom t sink ch hops received j).machine.state := by
  obtain ⟨n, hn, rule, consumed⟩ | ⟨n, hn, id', missing⟩ | ⟨id', chain⟩ :=
    t.chain_cases ch m.state (t.limits.maxHops.toNat + 1 - hops)
  · obtain ⟨result, state⟩ :=
      feedFrom_consumedAt total eager hops hl (by omega) consumed received j
    obtain ⟨id', chain, chosen, wide⟩ := consumed
    rw [result, state]
    exact .consumed (by omega) chain chosen wide
  · obtain ⟨result, state, -⟩ :=
      feedFrom_missingAt total eager hops closed hm hl (by omega) missing received j
    rw [result, state]
    exact .unhandled (by omega) missing.1 missing.2
  · obtain ⟨result, state, -⟩ :=
      feedFrom_exceeded total eager hops hl (by omega) chain received j
    rw [result, state]
    exact .exceeded (by omega) chain

/-- A character fails exactly where its chain blocks it. -/
theorem Feeds.error_iff_blocks {t : Table α τ} {ch : Char} {id last : Nat}
    {result : Except Stop Bool} (h : Feeds t ch id 0 result last) :
    (∃ e, result = .error (.error e)) ↔ t.Blocks ch id := by
  cases h with
  | @consumed n id' rule within chain chosen wide =>
    have ended : t.hop ch id' = none := by simp [Table.hop_of_choice chosen, wide]
    constructor
    · rintro ⟨e, ⟨⟩⟩
    · rintro (⟨k, hk, id'', chain', missing⟩ | ⟨id'', chain'⟩)
      · have same := Table.end_unique chain ended chain' (by simp [Table.hop, missing])
        rw [← same, chosen] at missing
        cases missing
      · rw [Table.hopped_of_ended chain ended (by omega)] at chain'
        cases chain'
  | unhandled within chain missing =>
    exact ⟨fun _ => .inl ⟨_, by omega, _, chain, missing⟩, fun _ => ⟨_, rfl⟩⟩
  | exceeded beyond chain =>
    refine ⟨fun _ => .inr ⟨last, ?_⟩, fun _ => ⟨_, rfl⟩⟩
    rw [← beyond, Nat.zero_add]
    exact chain

end TableLexer
