import Mathlib.Combinatorics.Pigeonhole
import TableLexer.Proofs.Revisions
import TableLexer.Proofs.Verdict

/-!
# Chains that never end

From a state a character goes on in one way only. So a chain of hops that ends has been
in no state twice, and it has fewer hops than the table has states. A limit of at least
one hop for each state but one therefore stops no chain that would have ended: the
character would hop forever, and it exceeds every higher limit too.
-/

namespace TableLexer

variable {α τ : Type}

namespace Table

/-- A chain is its first hops, and then the chain from where they lead. -/
theorem hopped_add (t : Table α τ) (c : Char) (id a b : Nat) :
    t.hopped c id (a + b) = (t.hopped c id a).bind fun id' => t.hopped c id' b := by
  induction b with
  | zero => simp [hopped]
  | succ b ih =>
    rw [← Nat.add_assoc, hopped, ih, Option.bind_assoc]
    simp only [hopped]

/-- A chain that ends is never in a state that it has been in before. -/
theorem ne_of_ended {t : Table α τ} {c : Char} {id last n i k mid mid' : Nat}
    (chain : t.hopped c id n = some last) (ended : t.hop c last = none) (hik : i < k) (hkn : k ≤ n)
    (first : t.hopped c id i = some mid) (second : t.hopped c id k = some mid') : mid ≠ mid' := by
  rintro rfl
  -- from the same state the chain ends both after `n - i` hops and earlier
  have late : t.hopped c mid (n - i) = some last := by
    have split := t.hopped_add c id i (n - i)
    rw [Nat.add_sub_cancel' (by omega), chain, first] at split
    exact split.symm
  have soon : t.hopped c mid (n - k) = some last := by
    have split := t.hopped_add c id k (n - k)
    rw [Nat.add_sub_cancel' hkn, chain, second] at split
    exact split.symm
  rw [hopped_of_ended soon ended (by omega)] at late
  cases late

/-- A chain that ends has fewer hops than there are states. -/
theorem lt_stateCount_of_ended {t : Table α τ} (closed : t.Closed) {c : Char} {id last n : Nat}
    (hid : id < t.stateCount) (chain : t.hopped c id n = some last) (ended : t.hop c last = none) :
    n < t.stateCount := by
  by_contra many
  have visited (i : Nat) (hi : i ≤ n) : ∃ mid, t.hopped c id i = some mid :=
    hopped_iff.mpr fun k hk => hopped_iff.mp ⟨last, chain⟩ k (by omega)
  have stays : ∀ i ∈ Finset.range (n + 1), (t.hopped c id i).getD 0 ∈
      Finset.range t.stateCount := by
    intro i hi
    obtain ⟨mid, here⟩ := visited i (by simpa [Nat.lt_succ_iff] using hi)
    simpa [here] using hopped_lt closed hid here
  have fewer : (Finset.range t.stateCount).card < (Finset.range (n + 1)).card := by
    simp only [Finset.card_range]
    omega
  obtain ⟨i, hi, k, hk, apart, same⟩ :=
    Finset.exists_ne_map_eq_of_card_lt_of_maps_to fewer stays
  simp only [Finset.mem_range, Nat.lt_succ_iff] at hi hk
  obtain ⟨mid, first⟩ := visited i hi
  obtain ⟨mid', second⟩ := visited k hk
  have same : mid = mid' := by simpa [first, second] using same
  rcases Nat.lt_or_gt_of_ne apart with hlt | hlt
  · exact ne_of_ended chain ended hlt hk first second same
  · exact ne_of_ended chain ended hlt hi second first same.symm

/-- A chain with as many hops as there are states goes on forever. -/
theorem endless_of_hopped {t : Table α τ} (closed : t.Closed) {c : Char} {id last n : Nat}
    (hid : id < t.stateCount) (chain : t.hopped c id n = some last) (long : t.stateCount ≤ n)
    (k : Nat) : ∃ id', t.hopped c id k = some id' := by
  have unended {i last' : Nat} (short : t.hopped c id i = some last') :
      t.hop c last' ≠ none := by
    intro ended
    have few := lt_stateCount_of_ended closed hid short ended
    rw [hopped_of_ended short ended (Nat.lt_of_lt_of_le few long)] at chain
    cases chain
  obtain ⟨i, -, rule, last', short, chosen, wide⟩ | ⟨i, -, last', short, missing⟩ | goes :=
    t.chain_cases c id k
  · exact absurd (by simp [hop_of_choice chosen, wide]) (unended short)
  · exact absurd (by simp [hop, missing]) (unended short)
  · exact goes

end Table

/-- The same script with another limit builds the same table but for the limit. -/
theorem Draft.build_with_limit [DecidableEq α] [Described α] {init : α} {limits : Limits}
    {script : List (Directive α)} {factory : Factory α τ} {j₀ j₁ : Journal α} {t : Table α τ}
    (built : (((Draft.start init limits).run script j₀).1.build factory j₁).1 = .ok t)
    (n : UInt64) :
    (((Draft.start init limits).run (script ++ [.limit ⟨n⟩]) j₀).1.build factory j₁).1 =
      .ok { t with limits := ⟨n⟩ } := by
  obtain ⟨defined, closed, rfl⟩ := build_ok built
  rw [run_append]
  generalize ((Draft.start init limits).run script j₀).1 = d at defined closed ⊢
  have defined' : ({ d with limits := ⟨n⟩ } : Draft α).defines d.init = true := defined
  have closed' : ({ d with limits := ⟨n⟩ } : Draft α).gap? = none := closed
  simp only [run, apply, List.foldl_cons, List.foldl_nil, build, defined', closed', if_true]
  rfl

/-- The chain of a character does not depend on the limit. -/
theorem Table.hopped_with_limit (t : Table α τ) (limits : Limits) (c : Char) (id n : Nat) :
    ({ t with limits } : Table α τ).hopped c id n = t.hopped c id n := by
  induction n with
  | zero => rfl
  | succ n ih =>
    rw [hopped, ih, hopped]
    rfl

namespace Machine

variable [Described α]

/-- A character that hops forever exceeds any limit. -/
theorem feed_of_endless {t : Table α τ} (total : t.factory.Total)
    (hl : t.limits.maxHops.toNat < hopCeiling) {m : Machine} {ch : Char}
    (endless : ∀ n, ∃ id, t.hopped ch m.state n = some id) (received : Array τ) (j : Journal α) :
    ∃ text, (m.feed t (fun _ => true) ch received j).result =
      .error (.error (.hopLimitExceeded ch text t.limits.maxHops)) := by
  obtain ⟨id, chain⟩ := endless (t.limits.maxHops.toNat + 1)
  obtain ⟨result, -, -⟩ :=
    feedFrom_exceeded total (fun _ => rfl) 0 hl (by omega) chain received j
  exact ⟨_, result⟩

/-- If there are at least as many hops allowed as there are other states, a character
that takes too many of them would never have stopped: its chain has no end, and with
the same rules it exceeds every higher limit. -/
theorem only_loops_exceed_limit [DecidableEq α] (init : α) (limits : Limits)
    (script : List (Directive α)) (factory : Factory α τ) (j₀ j₁ : Journal α) (t : Table α τ)
    (built : (((Draft.start init limits).run script j₀).1.build factory j₁).1 = .ok t)
    (total : factory.Total) (hl : t.limits.maxHops.toNat < hopCeiling)
    (enough : t.stateCount - 1 ≤ t.limits.maxHops.toNat) (m : Machine)
    (hm : m.state < t.stateCount) (ch : Char) (received : Array τ) (j : Journal α) (c : Char)
    (text : String) (limit : UInt64)
    (exceeded : (m.feed t (fun _ => true) ch received j).result =
      .error (.error (.hopLimitExceeded c text limit))) :
    (∀ n, ∃ id, t.hopped ch m.state n = some id) ∧
    ∀ high : UInt64, t.limits.maxHops ≤ high → high.toNat < hopCeiling →
      ∃ t' : Table α τ,
        (((Draft.start init limits).run (script ++ [.limit ⟨high⟩]) j₀).1.build factory j₁).1 =
          .ok t' ∧
        t'.rows = t.rows ∧ t'.limits.maxHops = high ∧
        ∀ m' : Machine, m'.state = m.state → ∀ (received' : Array τ) (j' : Journal α),
          ∃ text', (m'.feed t' (fun _ => true) ch received' j').result =
            .error (.error (.hopLimitExceeded ch text' high)) := by
  obtain rfl := Draft.factory_of_build built
  have closed := Table.Built.closed ⟨init, limits, script, j₀, j₁, built⟩
  have feeds := feeds_feedFrom closed hl total (fun _ => rfl) m ch 0 received j hm (Nat.zero_le _)
  rw [← feed, exceeded] at feeds
  cases feeds with
  | @exceeded n id beyond chain =>
    have endless := Table.endless_of_hopped closed hm chain (by omega)
    refine ⟨endless, fun high _ hh => ?_⟩
    refine ⟨_, Draft.build_with_limit built high, rfl, rfl, ?_⟩
    intro m' same received' j'
    refine feed_of_endless (t := { t with limits := ⟨high⟩ }) total hh (fun n => ?_) received' j'
    rw [Table.hopped_with_limit, same]
    exact endless n

end Machine

/-- The letter x goes back and forth between two states, one of which flushes. -/
def shuttleScript : List (Directive Nat) :=
  [.on (.only 'x') .defer 1, .stay .any .shift, .add 1 (.only 'x') .reduce 0,
    .add 1 .any .skip 1, .limit ⟨1⟩]

/-- One hop for two states is just enough, and a thousand hops are no help. -/
theorem Machine.only_loops_exceed_limit_shuttle :
    ∃ t t' : Table Nat String,
      (((Draft.start 0 {}).run shuttleScript {}).1.build .text {}).1 = .ok t ∧
      t.stateCount - 1 = t.limits.maxHops.toNat ∧
      (feed t (fun _ => true) ⟨1, "a"⟩ 'x' #[] {}).result =
        .error (.error (.hopLimitExceeded 'x' "1" 1)) ∧
      (((Draft.start 0 {}).run (shuttleScript ++ [.limit ⟨1000⟩]) {}).1.build .text {}).1 =
        .ok t' ∧
      ∃ text, (feed t' (fun _ => true) ⟨1, ""⟩ 'x' #[] {}).result =
        .error (.error (.hopLimitExceeded 'x' text 1000)) := by
  have built : (((Draft.start 0 {}).run shuttleScript {}).1.build
      (Factory.text : Factory Nat String) {}).1 = .ok _ := rfl
  have exceeded : (feed (((Draft.start 0 {}).run shuttleScript {}).1.toTable Factory.text)
      (fun _ => true) ⟨1, "a"⟩ 'x' #[] {}).result =
        .error (.error (.hopLimitExceeded 'x' "1" 1)) := by decide +kernel
  obtain ⟨-, every⟩ := only_loops_exceed_limit 0 {} shuttleScript .text {} {} _ built
    Factory.total_text (by decide) (by decide) ⟨1, "a"⟩ (by decide) 'x' #[] {} 'x' "1" 1 exceeded
  obtain ⟨t', built', -, -, stops⟩ := every 1000 (by decide) (by decide)
  exact ⟨_, t', built, by decide, exceeded, built', stops ⟨1, ""⟩ rfl #[] {}⟩

end TableLexer
