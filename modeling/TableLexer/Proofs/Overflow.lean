import TableLexer.Proofs.Bounds
import TableLexer.Proofs.Loops

/-!
# The hop counter and its ceiling

A character that is sent back is dispatched again, with a counter that tells how often
this has happened (`SentBack`). The counter is held against the limit at each dispatch,
so it never is more than one beyond the limit, and both drivers let go of a character
after at most two dispatches more than the limit says. The counter is a machine word. A
limit below the ceiling of the word is exceeded before the counter is full. The ceiling
itself is a limit that no counter exceeds: a character that hops forever then fills the
counter, and what ends the loop is an overflow and not the limit.
-/

namespace TableLexer

variable {α τ : Type}

theorem toNat_le_hopCeiling (limit : UInt64) : limit.toNat ≤ hopCeiling :=
  Nat.le_pred_of_lt limit.toNat_lt

theorem Reaction.isZeroWidth_of_again {action : Action} {token token' : Option τ}
    (h : Reaction.of action token = .again token') : action.isZeroWidth = true := by
  by_contra wide
  simp [Reaction.of, wide] at h

/-- The limit is at the ceiling, and `ch` hops from `id` more often than can be counted. -/
def Table.FillsCounter (t : Table α τ) (ch : Char) (id : Nat) : Prop :=
  t.limits.maxHops.toNat = hopCeiling ∧ ∃ id', t.hopped ch id (hopCeiling + 1) = some id'

variable [Described α]

/-! ## Dispatches of one character -/

namespace Machine

/-- The rule that sends a character back is a hop of its chain. -/
theorem hop_of_fire_again {t : Table α τ} {m m' : Machine} {ch : Char} {hops : Nat}
    {j k : Journal α} {token : Option τ}
    (fired : m.fire t ch hops j = ⟨m', k, .ok (.again token)⟩) :
    t.hop ch m.state = some m'.state := by
  have fires := fires_fire t m ch hops j
  generalize m.fire t ch hops j = o at fires fired
  cases fires with
  | overLimit beyond => simp at fired
  | noRule within missing => simp at fired
  | failed within selected flushes labelled answer => simp at fired
  | kept within selected keeps =>
    obtain ⟨rfl, -, reaction⟩ := Outcome.mk.inj fired
    have narrow := Reaction.isZeroWidth_of_again (Except.ok.inj reaction)
    rw [Table.hop_of_choice (Table.choice_eq_some_iff.mpr selected), if_pos narrow]
    rfl
  | flushed within selected flushes labelled answer =>
    obtain ⟨rfl, -, reaction⟩ := Outcome.mk.inj fired
    have narrow := Reaction.isZeroWidth_of_again (Except.ok.inj reaction)
    rw [Table.hop_of_choice (Table.choice_eq_some_iff.mpr selected), if_pos narrow]

/-- Since it came to the machine `m` with the journal `j`, `ch` has been dispatched `n`
times, one after the other and with the counters from 0 on, and sent back each time. This
has left the machine `m'` and the journal `j'`. -/
inductive SentBack (t : Table α τ) (ch : Char) (m : Machine) (j : Journal α) :
    Nat → Machine → Journal α → Prop where
  | never : SentBack t ch m j 0 m j
  | again {n : Nat} {m' m'' : Machine} {j' j'' : Journal α} {token : Option τ}
      (earlier : SentBack t ch m j n m' j')
      (fired : m'.fire t ch n j' = ⟨m'', j'', .ok (.again token)⟩) (room : n < hopCeiling) :
    SentBack t ch m j (n + 1) m'' j''

namespace SentBack

variable {t : Table α τ} {ch : Char} {m m' : Machine} {j j' : Journal α} {n : Nat}

theorem le_limit (h : SentBack t ch m j n m' j') : n ≤ t.limits.maxHops.toNat + 1 := by
  cases h with
  | never => exact Nat.zero_le _
  | again earlier fired room => exact Nat.succ_le_succ (within_of_fire_ok fired)

theorem le_ceiling (h : SentBack t ch m j n m' j') : n ≤ hopCeiling := by
  cases h with
  | never => exact Nat.zero_le _
  | again earlier fired room => exact room

/-- The machine is where the chain of the character has led. -/
theorem hopped (h : SentBack t ch m j n m' j') : t.hopped ch m.state n = some m'.state := by
  induction h with
  | never => rfl
  | again earlier fired room ih => simp [Table.hopped, ih, hop_of_fire_again fired]

/-- A full counter is sent back only where the limit is at the ceiling. -/
theorem fillsCounter (h : SentBack t ch m j n m' j') (full : hopCeiling ≤ n) {m'' : Machine}
    {k : Journal α} {token : Option τ}
    (fired : m'.fire t ch n j' = ⟨m'', k, .ok (.again token)⟩) : t.FillsCounter ch m.state := by
  have filled : n = hopCeiling := Nat.le_antisymm h.le_ceiling full
  have within := within_of_fire_ok fired
  have most := toNat_le_hopCeiling t.limits.maxHops
  refine ⟨by omega, m''.state, ?_⟩
  simp [Table.hopped, ← filled, h.hopped, hop_of_fire_again fired]

end SentBack

/-- The last dispatch of a character in `feed`, with the counter `hops`, and what it leaves. -/
inductive LastDispatch (t : Table α τ) (sink : Sink τ) (ch : Char) (m : Machine) (hops : Nat)
    (received : Array τ) (j : Journal α) : Delivery α τ → Prop where
  | stopped {m' : Machine} {k : Journal α} {stop : Stop}
      (fired : m.fire t ch hops j = ⟨m', k, .error stop⟩) :
    LastDispatch t sink ch m hops received j ⟨m', k, received, .error stop⟩
  | consumed {m' : Machine} {k : Journal α} {token : Option τ} {received' : Array τ}
      {verdict : Bool} (fired : m.fire t ch hops j = ⟨m', k, .ok (.consumed token)⟩)
      (delivered : deliver sink received token = (received', verdict)) :
    LastDispatch t sink ch m hops received j ⟨m', k, received', .ok verdict⟩
  | refused {m' : Machine} {k : Journal α} {token : Option τ} {received' : Array τ}
      (fired : m.fire t ch hops j = ⟨m', k, .ok (.again token)⟩)
      (delivered : deliver sink received token = (received', false)) :
    LastDispatch t sink ch m hops received j ⟨m', k, received', .ok false⟩
  | overflowed {m' : Machine} {k : Journal α} {token : Option τ} {received' : Array τ}
      (fired : m.fire t ch hops j = ⟨m', k, .ok (.again token)⟩)
      (delivered : deliver sink received token = (received', true))
      (full : hopCeiling ≤ hops) :
    LastDispatch t sink ch m hops received j ⟨m', k, received', .error .hopOverflow⟩

/-- Feeding a character is sending it back some times and dispatching it once more. -/
theorem exists_lastDispatch {t : Table α τ} {ch : Char} {m m' : Machine} {j j' : Journal α}
    {n : Nat} (sent : SentBack t ch m j n m' j') (sink : Sink τ) (received : Array τ) :
    ∃ n' m'' received' j'', SentBack t ch m j n' m'' j'' ∧
      LastDispatch t sink ch m'' n' received' j'' (m'.feedFrom t sink ch n received j') := by
  fun_induction feedFrom t sink m' ch n received j' with
  | case1 m' n received j' m'' k stop fired =>
    exact ⟨n, m', received, j', sent, .stopped fired⟩
  | case2 m' n received j' m'' k token fired received' verdict delivered =>
    exact ⟨n, m', received, j', sent, .consumed fired delivered⟩
  | case3 m' n received j' m'' k token fired received' delivered =>
    exact ⟨n, m', received, j', sent, .refused fired delivered⟩
  | case4 m' n received j' m'' k token fired received' delivered room ih =>
    exact ih (sent.again fired room)
  | case5 m' n received j' m'' k token fired received' delivered full =>
    exact ⟨n, m', received, j', sent, .overflowed fired delivered (Nat.le_of_not_lt full)⟩

/-- A dispatch has other reasons to stop. -/
theorem stop_ne_overflow {t : Table α τ} {m m' : Machine} {ch : Char} {hops : Nat}
    {j k : Journal α} {stop : Stop} (fired : m.fire t ch hops j = ⟨m', k, .error stop⟩) :
    stop ≠ .hopOverflow := by
  have fires := fires_fire t m ch hops j
  rw [fired] at fires
  cases fires with
  | overLimit beyond => simp
  | noRule within missing => simp
  | failed within selected flushes labelled answer => simp

theorem fillsCounter_of_overflow {t : Table α τ} {sink : Sink τ} {m : Machine} {ch : Char}
    {received : Array τ} {j : Journal α}
    (overflows : (m.feed t sink ch received j).result = .error .hopOverflow) :
    t.FillsCounter ch m.state := by
  obtain ⟨n, m', received', j', sent, last⟩ := exists_lastDispatch (.never (j := j)) sink received
  rw [feed] at overflows
  generalize m.feedFrom t sink ch 0 received j = d at last overflows
  cases last with
  | stopped fired => exact absurd (Except.error.inj overflows) (stop_ne_overflow fired)
  | consumed fired delivered => cases overflows
  | refused fired delivered => cases overflows
  | overflowed fired delivered full => exact sent.fillsCounter full fired

/-- With the limit at the ceiling, a character that hops on and on fills the counter. -/
theorem overflow_of_fillsCounter {t : Table α τ} (total : t.factory.Total) {sink : Sink τ}
    (eager : Eager sink) {m : Machine} {ch : Char} (fills : t.FillsCounter ch m.state)
    (received : Array τ) (j : Journal α) :
    (m.feed t sink ch received j).result = .error .hopOverflow := by
  obtain ⟨top, id, chain⟩ := fills
  rw [Table.hopped, Option.bind_eq_some_iff] at chain
  obtain ⟨mid, chain, hop⟩ := chain
  obtain ⟨rule, chosen, narrow, -⟩ := Table.hop_eq_some hop
  obtain ⟨held, received', j', same, -⟩ :=
    feedFrom_hopped total eager 0 (by omega) (by omega) chain received j
  obtain ⟨token, k, fired⟩ :=
    fire_chosen total (m := ⟨mid, held⟩) (Nat.le_of_eq top.symm) chosen j'
  have wants := deliver_eager eager received' token
  rcases delivered : deliver sink received' token with ⟨received'', verdict⟩
  rw [delivered] at wants
  subst wants
  rw [feed, same, Nat.zero_add, feedFrom, fired]
  simp [Reaction.of, narrow, delivered]

end Machine

/-! ## Parked characters -/

namespace Scan

open Machine (SentBack)

/-- A parked character has been sent back as often as its counter says, up to the journal
`j`. -/
def Counted (t : Table α τ) (s : Scan) (j : Journal α) : Prop :=
  ∀ ch n, s.parked = some (ch, n) → ∃ m j₀, SentBack t ch m j₀ n s.machine j

theorem counted_unparked (t : Table α τ) {s : Scan} (h : s.parked = none) (j : Journal α) :
    s.Counted t j := by
  intro ch n parked
  rw [h] at parked
  cases parked

variable {t : Table α τ}

theorem Counted.upcoming {s : Scan} {j : Journal α} (h : s.Counted t j) {ch : Char} {hops : Nat}
    {rest : List Char} (hu : s.upcoming = some (ch, hops, rest)) :
    ∃ m j₀, SentBack t ch m j₀ hops s.machine j := by
  obtain ⟨parked, -⟩ | ⟨-, rfl, -⟩ := upcoming_eq_some hu
  · exact h ch hops parked
  · exact ⟨s.machine, j, .never⟩

/-- A turn that parks the character counts one more hop. -/
theorem counted_after {ch : Char} {hops : Nat} {rest : List Char} {m m' m'' : Machine}
    {j j' k : Journal α} {reaction : Reaction τ} {s : Scan} (sent : SentBack t ch m j hops m' j')
    (fired : m'.fire t ch hops j' = ⟨m'', k, .ok reaction⟩)
    (next : after rest ch hops m'' reaction = some s) : s.Counted t k := by
  obtain ⟨token, rfl, rfl⟩ | ⟨token, rfl, room, rfl⟩ := after_eq_some next
  · exact counted_unparked t rfl k
  · intro ch' n parked
    cases parked
    exact ⟨m, j, sent.again fired room⟩

theorem again_of_stuck {rest : List Char} {ch : Char} {hops : Nat} {m : Machine}
    {reaction : Reaction τ} (stuck : after rest ch hops m reaction = none) :
    hopCeiling ≤ hops ∧ ∃ token, reaction = .again token := by
  cases reaction with
  | consumed token => cases stuck
  | again token =>
    by_cases room : hops < hopCeiling
    · simp [after, room] at stuck
    · exact ⟨Nat.le_of_not_lt room, token, rfl⟩

omit [Described α] in
theorem item_finish_ne_overflow (t : Table α τ) (m : Machine) (j : Journal α) :
    (finish t m j).item ≠ some (.error .hopOverflow) := by
  have closes := Machine.closes_flushEnd t m j
  unfold finish
  generalize m.flushEnd t j = o at closes ⊢
  cases closes with
  | unknown unlabelled => simp
  | failed labelled answer => simp
  | @flushed label token labelled answer => cases token <;> simp

/-- Every pull keeps account of the hops, and it overflows only with a full counter. -/
theorem counted_pull {s : Scan} {j : Journal α} (h : s.Counted t j) :
    (pull t s j).scan.Counted t (pull t s j).journal ∧
      ((pull t s j).item = some (.error .hopOverflow) → ∃ ch id, t.FillsCounter ch id) := by
  refine pull_induction (motive := fun s j p => s.Counted t j → p.scan.Counted t p.journal ∧
    (p.item = some (.error .hopOverflow) → ∃ ch id, t.FillsCounter ch id)) ?_ ?_ s j h
  · intro s j p turns counted
    cases turns with
    | idle done => exact ⟨counted, by simp⟩
    | ended undone nothing =>
      exact ⟨counted_unparked t rfl _, by simp [item_finish_ne_overflow]⟩
    | failed undone up fired =>
      exact ⟨counted_unparked t rfl _, by simp [Machine.stop_ne_overflow fired]⟩
    | overflowed undone up fired stuck =>
      obtain ⟨m, j₀, sent⟩ := counted.upcoming up
      obtain ⟨full, token, rfl⟩ := again_of_stuck stuck
      exact ⟨counted_unparked t rfl _, fun _ => ⟨_, _, sent.fillsCounter full fired⟩⟩
    | gave undone up fired next given =>
      obtain ⟨m, j₀, sent⟩ := counted.upcoming up
      exact ⟨counted_after sent fired next, by simp⟩
  · intro s j s' j' p turns later counted
    cases turns with
    | quiet undone up fired next silent =>
      obtain ⟨m, j₀, sent⟩ := counted.upcoming up
      exact later (counted_after sent fired next)

theorem counted_pulled {s : Scan} {j : Journal α} (h : s.Counted t j) (k : Nat) :
    (pulled t k s j).1.Counted t (pulled t k s j).2 := by
  induction k generalizing s j with
  | zero => exact h
  | succ k ih => exact ih (counted_pull h).1

theorem counted_start (t : Table α τ) (text : String) (j : Journal α) :
    (start text j).1.Counted t (start text j).2 :=
  counted_unparked t rfl _

end Scan

/-! ## The counter of a table -/

namespace Table

open Machine (SentBack LastDispatch)

/-- How a table counts the hops of one character. -/
structure CountsHops (t : Table α τ) : Prop where
  /-- `feed` sends a character back some times, once more at most than the limit says, and
  then dispatches it for the last time. -/
  feeds : ∀ (sink : Sink τ) (m : Machine) (ch : Char) (received : Array τ) (j : Journal α),
    ∃ n m' received' j', SentBack t ch m j n m' j' ∧
      n ≤ t.limits.maxHops.toNat + 1 ∧ n ≤ hopCeiling ∧
      LastDispatch t sink ch m' n received' j' (m.feed t sink ch received j)
  /-- A character that a scan has parked has been sent back as often as its counter says. -/
  parks : ∀ (text : String) (j : Journal α) (k : Nat) (s : Scan) (j' : Journal α) (ch : Char)
    (n : Nat), Scan.pulled t k (Scan.start text j).1 (Scan.start text j).2 = (s, j') →
    s.parked = some (ch, n) →
    n ≤ t.limits.maxHops.toNat + 1 ∧ n ≤ hopCeiling ∧ ∃ m j₀, SentBack t ch m j₀ n s.machine j'
  /-- The counter would have to grow beyond its ceiling only if it is filled. -/
  overflow : ∀ (sink : Sink τ) (m : Machine) (ch : Char) (received : Array τ) (j : Journal α),
    (m.feed t sink ch received j).result = .error .hopOverflow → t.FillsCounter ch m.state
  overflow_pull : ∀ (text : String) (j : Journal α) (k : Nat),
    (t.nth text k j).item = some (.error .hopOverflow) → ∃ ch id, t.FillsCounter ch id
  /-- If it is filled, only a failure of the factory or a refusal can come before that. -/
  filled : t.factory.Total → ∀ sink : Sink τ, Machine.Eager sink →
    ∀ (m : Machine) (ch : Char) (received : Array τ) (j : Journal α),
      t.FillsCounter ch m.state → (m.feed t sink ch received j).result = .error .hopOverflow

/-- The hop counter is at most one beyond the limit, and it overflows only if the limit is
at the ceiling of the counter and a character hops on and on. -/
theorem hop_counter_overflows_only_at_ceiling (t : Table α τ) : t.CountsHops := by
  have counted (text : String) (j : Journal α) (k : Nat) :=
    Scan.counted_pulled (Scan.counted_start t text j) k
  constructor
  case feeds =>
    intro sink m ch received j
    obtain ⟨n, m', received', j', sent, last⟩ :=
      Machine.exists_lastDispatch (.never (j := j)) sink received
    exact ⟨n, m', received', j', sent, sent.le_limit, sent.le_ceiling, last⟩
  case parks =>
    intro text j k s j' ch n pulls parked
    have counted := counted text j k
    rw [pulls] at counted
    obtain ⟨m, j₀, sent⟩ := counted ch n parked
    exact ⟨sent.le_limit, sent.le_ceiling, m, j₀, sent⟩
  case overflow =>
    intro sink m ch received j overflows
    exact Machine.fillsCounter_of_overflow overflows
  case overflow_pull =>
    intro text j k overflows
    exact (Scan.counted_pull (counted text j k)).2 overflows
  case filled =>
    intro total sink eager m ch received j fills
    exact Machine.overflow_of_fillsCounter total eager fills received j

/-- The bound is met: with the limit 1, two hops are counted before the third dispatch. -/
theorem hop_counter_overflows_only_at_ceiling_stutter :
    ∃ s j, Scan.pulled Scan.stutterTable 2 (Scan.start "a" ({} : Journal Nat)).1
        (Scan.start "a" {}).2 = (s, j) ∧ s.parked = some ('a', 2) ∧
      2 ≤ Scan.stutterTable.limits.maxHops.toNat + 1 ∧
      ∃ m j₀, SentBack Scan.stutterTable 'a' m j₀ 2 s.machine j := by
  have parked : (Scan.pulled Scan.stutterTable 2 (Scan.start "a" ({} : Journal Nat)).1
      (Scan.start "a" {}).2).1.parked = some ('a', 2) := by decide +kernel
  have counts := hop_counter_overflows_only_at_ceiling Scan.stutterTable
  obtain ⟨bound, -, sent⟩ := counts.parks "a" {} 2 _ _ 'a' 2 rfl parked
  exact ⟨_, _, rfl, parked, bound, sent⟩

/-- Every character stays where it is and is looked at again, as often as can be counted. -/
def spinScript : List (Directive Nat) := [.limit ⟨18446744073709551615⟩, .stay .any .defer]

def spinTable : Table Nat String := ((Draft.start 0 {}).run spinScript {}).1.toTable .text

theorem hopped_spinTable (ch : Char) (n : Nat) : spinTable.hopped ch 0 n = some 0 := by
  induction n with
  | zero => rfl
  | succ n ih =>
    rw [hopped, ih]
    rfl

/-- A fresh machine over a built table whose counter overflows. -/
theorem hop_counter_overflows_spinning :
    (((Draft.start 0 {}).run spinScript {}).1.build .text {}).1 = .ok spinTable ∧
      spinTable.limits.maxHops = 18446744073709551615 ∧
      (({} : Machine).feed spinTable (fun _ => true) 'x' #[] {}).result =
        .error .hopOverflow := by
  refine ⟨rfl, rfl, ?_⟩
  apply Machine.overflow_of_fillsCounter Factory.total_text (fun _ => rfl)
  exact ⟨rfl, 0, hopped_spinTable 'x' _⟩

end Table

end TableLexer
