import TableLexer.Proofs.Chains

/-!
# The verdict on one character

What comes of a character is decided by its chain alone, and so is where it leaves the
machine and with which text. `Verdict` lists the three outcomes with the exact
condition for each. A chain is cut off one hop beyond the limit, before the rules of
that state are looked at, so a character that has no rule there still counts as one
that has hopped too often.
-/

namespace TableLexer

variable {α τ : Type} [Described α]

namespace Machine

/-- Some operations on machines and scans over `t` leave this machine. -/
def Reachable (t : Table α τ) (m : Machine) : Prop :=
  ∃ (j : Journal α) (operations : List (Operation τ)),
    m ∈ (Bench.run t { journal := j } operations).1.allMachines

theorem Reachable.within {t : Table α τ} (closed : t.Closed) {m : Machine}
    (h : m.Reachable t) : m.state < t.stateCount := by
  obtain ⟨j, operations, hm⟩ := h
  have empty : ({ journal := j } : Bench α).Within t := by simp [Bench.Within, Bench.allMachines]
  exact (Bench.run_within closed empty operations).1 m hm

/-- What `d` makes of `ch` in `m`, in terms of the chain of `ch`. -/
structure Verdict (t : Table α τ) (m : Machine) (ch : Char) (d : Delivery α τ) : Prop where
  consumed_iff : d.result = .ok true ↔
    ∃ k ≤ t.limits.maxHops.toNat, ∃ rule, t.ConsumedAt ch m.state k rule
  /-- The machine follows the rule that consumes the character. -/
  consumed : ∀ k ≤ t.limits.maxHops.toNat, ∀ rule, t.ConsumedAt ch m.state k rule →
    d.machine.state = rule.next
  unhandled_iff : (∃ c text, d.result = .error (.error (.unhandled c text))) ↔
    ∃ k ≤ t.limits.maxHops.toNat, ∃ id, t.MissingAt ch m.state k id
  /-- The error names the state without a rule, and the machine stays in it. -/
  unhandled : ∀ k ≤ t.limits.maxHops.toNat, ∀ id, t.MissingAt ch m.state k id →
    ∃ label, t.label? id = some label ∧
      d.result = .error (.error (.unhandled ch (describe label))) ∧
      d.machine.state = id ∧ HeldAfter t ch m k d.machine.held
  exceeded_iff :
    (∃ c text limit, d.result = .error (.error (.hopLimitExceeded c text limit))) ↔
      ∀ k ≤ t.limits.maxHops.toNat, t.HopsAt ch m.state k
  /-- The error names the state after the last hop, and the machine stays in it. -/
  exceeded : (∀ k ≤ t.limits.maxHops.toNat, t.HopsAt ch m.state k) →
    ∃ id label, t.hopped ch m.state (t.limits.maxHops.toNat + 1) = some id ∧
      t.label? id = some label ∧
      d.result = .error (.error (.hopLimitExceeded ch (describe label) t.limits.maxHops)) ∧
      d.machine.state = id ∧ HeldAfter t ch m (t.limits.maxHops.toNat + 1) d.machine.held

end Machine

/-- A state of the table has the text of its label. -/
theorem Table.stateText_eq {t : Table α τ} {id : Nat} (hid : id < t.stateCount) :
    ∃ label, t.label? id = some label ∧ t.stateText id = describe label := by
  obtain ⟨label, labelled⟩ := lt_stateCount_iff.mp hid
  exact ⟨label, labelled, by simp [stateText, labelled]⟩

namespace Machine

omit [Described α] in
/-- Up to the limit a character is consumed, or has no rule, or hops each time. -/
theorem chain_trichotomy (t : Table α τ) (ch : Char) (id : Nat) :
    (∃ k ≤ t.limits.maxHops.toNat, ∃ rule, t.ConsumedAt ch id k rule) ∨
      (∃ k ≤ t.limits.maxHops.toNat, ∃ id', t.MissingAt ch id k id') ∨
      ∀ k ≤ t.limits.maxHops.toNat, t.HopsAt ch id k := by
  simpa only [Table.hopped_iff, Nat.lt_succ_iff] using
    t.chain_cases ch id (t.limits.maxHops.toNat + 1)

/-- If one of three causes is at work and their effects exclude each other, an effect
shows its cause. -/
theorem iff_of_trichotomy {A B C P Q R : Prop} (causes : A ∨ B ∨ C) (first : A → P)
    (second : B → Q) (third : C → R) (hpq : P → ¬ Q) (hpr : P → ¬ R) (hqr : Q → ¬ R) :
    (P ↔ A) ∧ (Q ↔ B) ∧ (R ↔ C) := by
  tauto

section

variable {t : Table α τ} (closed : t.Closed) (hl : t.limits.maxHops.toNat < hopCeiling)
  (total : t.factory.Total) {m : Machine} (hm : m.state < t.stateCount) {ch : Char}
include closed hl total hm

theorem feed_of_missingAt {k id : Nat} (hk : k ≤ t.limits.maxHops.toNat)
    (missing : t.MissingAt ch m.state k id) (received : Array τ) (j : Journal α) :
    ∃ label, t.label? id = some label ∧
      (m.feed t (fun _ => true) ch received j).result =
        .error (.error (.unhandled ch (describe label))) ∧
      (m.feed t (fun _ => true) ch received j).machine.state = id ∧
      HeldAfter t ch m k (m.feed t (fun _ => true) ch received j).machine.held := by
  obtain ⟨label, labelled, text⟩ := Table.stateText_eq (Table.hopped_lt closed hm missing.1)
  refine ⟨label, labelled, ?_⟩
  rw [← text]
  exact feedFrom_missingAt total (fun _ => rfl) 0 closed hm hl (by omega) missing received j

theorem feed_of_hopsAt (hops : ∀ k ≤ t.limits.maxHops.toNat, t.HopsAt ch m.state k)
    (received : Array τ) (j : Journal α) :
    ∃ id label, t.hopped ch m.state (t.limits.maxHops.toNat + 1) = some id ∧
      t.label? id = some label ∧
      (m.feed t (fun _ => true) ch received j).result =
        .error (.error (.hopLimitExceeded ch (describe label) t.limits.maxHops)) ∧
      (m.feed t (fun _ => true) ch received j).machine.state = id ∧
      HeldAfter t ch m (t.limits.maxHops.toNat + 1)
        (m.feed t (fun _ => true) ch received j).machine.held := by
  obtain ⟨id, chain⟩ := Table.hopped_iff.mpr fun k hk => hops k (Nat.le_of_lt_succ hk)
  obtain ⟨label, labelled, text⟩ := Table.stateText_eq (Table.hopped_lt closed hm chain)
  refine ⟨id, label, chain, labelled, ?_⟩
  rw [← text]
  exact feedFrom_exceeded total (fun _ => rfl) 0 hl (by omega) chain received j

end

/-- Feeding a character to a machine that can be reached has the verdict of its chain:
consumed, unhandled or too many hops, each under exactly the stated condition, and each
leaving the machine in the stated state with the stated text. -/
theorem verdict_of_feed [DecidableEq α] (t : Table α τ) (built : t.Built)
    (hl : t.limits.maxHops.toNat < hopCeiling) (total : t.factory.Total) (m : Machine)
    (reachable : m.Reachable t) (ch : Char) (received : Array τ) (j : Journal α) :
    Verdict t m ch (m.feed t (fun _ => true) ch received j) := by
  have hm := reachable.within built.closed
  have consumed (k : Nat) (hk : k ≤ t.limits.maxHops.toNat) (rule : Rule)
      (h : t.ConsumedAt ch m.state k rule) :=
    feedFrom_consumedAt total (fun _ => rfl : Eager fun _ => true) 0 hl (by omega) h received j
  have unhandled (k : Nat) (hk : k ≤ t.limits.maxHops.toNat) (id : Nat)
      (h : t.MissingAt ch m.state k id) :=
    feed_of_missingAt built.closed hl total hm hk h received j
  have exceeded (h : ∀ k ≤ t.limits.maxHops.toNat, t.HopsAt ch m.state k) :=
    feed_of_hopsAt built.closed hl total hm h received j
  rw [← feed] at consumed
  generalize m.feed t (fun _ => true) ch received j = d at consumed unhandled exceeded ⊢
  -- the three results are different, so each condition is also necessary
  have iffs := iff_of_trichotomy
    (P := d.result = .ok true)
    (Q := ∃ c text, d.result = .error (.error (.unhandled c text)))
    (R := ∃ c text limit, d.result = .error (.error (.hopLimitExceeded c text limit)))
    (chain_trichotomy t ch m.state) ?_ ?_ ?_ ?_ ?_ ?_
  · obtain ⟨consumed_iff, unhandled_iff, exceeded_iff⟩ := iffs
    exact ⟨consumed_iff, fun k hk rule found => (consumed k hk rule found).2, unhandled_iff,
      unhandled, exceeded_iff, exceeded⟩
  · rintro ⟨k, hk, rule, found⟩
    exact (consumed k hk rule found).1
  · rintro ⟨k, hk, id, missing⟩
    obtain ⟨_, -, refused, -⟩ := unhandled k hk id missing
    exact ⟨_, _, refused⟩
  · intro each
    obtain ⟨_, _, -, -, refused, -⟩ := exceeded each
    exact ⟨_, _, _, refused⟩
  · rintro accepted ⟨c, text, refused⟩
    cases accepted.symm.trans refused
  · rintro accepted ⟨c, text, limit, refused⟩
    cases accepted.symm.trans refused
  · rintro ⟨c, text, refused⟩ ⟨c', text', limit, refused'⟩
    cases refused.symm.trans refused'

end Machine

/-- The letter a is held. The others hop, one of them on to the end of its hops. -/
def hopScript : List (Directive Nat) :=
  [.stay (.only 'a') .shift, .on (.only 'x') .defer 1, .on (.only 'y') .defer 1,
    .on (.only 'z') .reduce 1, .focus 1, .on (.only 'x') .shift 0, .on (.only 'z') .defer 2,
    .focus 2, .stay (.only 'a') .shift, .limit ⟨1⟩]

def hopTable : Table Nat String := ((Draft.start 0 {}).run hopScript {}).1.toTable .text

/-- One hop is allowed: x is consumed after it, y has no rule after it and leaves the
text alone, and z hops once more, to a state without a rule for it, and has flushed. -/
theorem Machine.verdict_of_feed_hops :
    hopTable.Built ∧ hopTable.limits.maxHops.toNat < hopCeiling ∧ hopTable.factory.Total ∧
    Reachable hopTable ⟨0, "a"⟩ ∧
    (feed hopTable (fun _ => true) ⟨0, "a"⟩ 'x' #[] {}).result = .ok true ∧
    (feed hopTable (fun _ => true) ⟨0, "a"⟩ 'y' #[] {}).result =
      .error (.error (.unhandled 'y' "1")) ∧
    (feed hopTable (fun _ => true) ⟨0, "a"⟩ 'y' #[] {}).machine.held = "a" ∧
    (feed hopTable (fun _ => true) ⟨0, "a"⟩ 'z' #[] {}).result =
      .error (.error (.hopLimitExceeded 'z' "2" 1)) ∧
    (feed hopTable (fun _ => true) ⟨0, "a"⟩ 'z' #[] {}).machine.held = "" := by
  have built : hopTable.Built := ⟨0, {}, hopScript, {}, {}, rfl⟩
  have hl : hopTable.limits.maxHops.toNat < hopCeiling := by decide
  have total : hopTable.factory.Total := Factory.total_text
  have reachable : Reachable hopTable ⟨0, "a"⟩ :=
    ⟨{}, [.machine, .process 0 'a' (fun _ => true) #[]], by decide +kernel⟩
  have verdict (ch : Char) := verdict_of_feed hopTable built hl total _ reachable ch #[] {}
  have hopped : hopTable.hopped 'z' 0 2 = some 2 := by decide +kernel
  have hops : ∀ k ≤ hopTable.limits.maxHops.toNat, hopTable.HopsAt 'z' 0 k := by
    intro k hk
    exact Table.hopped_iff.mp ⟨2, hopped⟩ k (Nat.lt_succ_of_le hk)
  have texts : describe (1 : Nat) = "1" ∧ describe (2 : Nat) = "2" := by decide +kernel
  have labels : hopTable.label? 1 = some 1 ∧ hopTable.label? 2 = some 2 := by decide +kernel
  obtain ⟨label, labelled, unhandled, -, held⟩ :=
    (verdict 'y').unhandled 1 (by decide) 1 ⟨by decide +kernel, by decide +kernel⟩
  obtain ⟨id, label', chain, labelled', exceeded, -, held'⟩ := (verdict 'z').exceeded hops
  cases labels.1.symm.trans labelled
  cases hopped.symm.trans chain
  cases labels.2.symm.trans labelled'
  rw [texts.1] at unhandled
  rw [texts.2] at exceeded
  refine ⟨built, hl, total, reachable, ?_, unhandled, held.deferred (by decide +kernel), exceeded,
    held'.reduced (by decide +kernel)⟩
  exact (verdict 'x').consumed_iff.mpr ⟨1, by decide, _, 1, by decide +kernel, rfl, rfl⟩

end TableLexer
