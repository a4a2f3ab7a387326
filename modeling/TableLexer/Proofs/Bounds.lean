import Mathlib.Control.Monad.Basic
import TableLexer.Proofs.Transcripts

/-!
# A scan is finite, bounded and fused

`Scan.allowance` is how many rules may still fire in a scan, the flush at the end or a
last error counted as one more. A character may take one hop more than the limit
before it is refused, so a character that is still to come is allowed one firing
more than the limit, and a parked one what its hops leave of that. Every firing uses
up some of the allowance and pays for at most one item and one call of the factory.
-/

namespace TableLexer

variable {α τ : Type}

namespace Scan

/-- How many rules may still fire, and one for the end. -/
def allowance (t : Table α τ) (s : Scan) : Nat :=
  if s.done then 0
  else
    (t.limits.maxHops.toNat + 1) * s.rest.length +
      (match s.parked with
        | none => 0
        | some (_, hops) => t.limits.maxHops.toNat + 1 - hops) + 1

theorem allowance_done (t : Table α τ) {s : Scan} (h : s.done = true) : allowance t s = 0 := by
  simp [allowance, h]

theorem allowance_pos (t : Table α τ) {s : Scan} (h : s.done = false) : 0 < allowance t s := by
  simp [allowance, h]

theorem allowance_start (t : Table α τ) (text : String) (j : Journal α) :
    allowance t (start text j).1 =
      (t.limits.maxHops.toNat + 1) * (normalize text.toList).length + 1 := rfl

/-- A firing within the limit uses up some of the allowance. -/
theorem allowance_after {t : Table α τ} {s s' : Scan} {ch : Char} {hops : Nat}
    {rest : List Char} {m : Machine} {reaction : Reaction τ}
    (hd : s.done = false) (hu : s.upcoming = some (ch, hops, rest))
    (within : hops ≤ t.limits.maxHops.toNat) (hs : after rest ch hops m reaction = some s') :
    allowance t s' < allowance t s := by
  have text : (t.limits.maxHops.toNat + 1) * (rest.length + 1) =
      (t.limits.maxHops.toNat + 1) * rest.length + (t.limits.maxHops.toNat + 1) := Nat.mul_succ _ _
  -- a parked character pays with one of its hops, a new one with its place in the text
  obtain ⟨hp, hr⟩ | ⟨hp, rfl, hr⟩ := upcoming_eq_some hu
  · obtain ⟨token, -, rfl⟩ | ⟨token, -, -, rfl⟩ := after_eq_some hs
    · simp [allowance, hd, hp, hr]
      omega
    · simp [allowance, hd, hp, hr]
      omega
  · obtain ⟨token, -, rfl⟩ | ⟨token, -, -, rfl⟩ := after_eq_some hs
    · simp [allowance, hd, hp, hr, text]
    · simp [allowance, hd, hp, hr, text]

end Scan

variable [Described α]

namespace Scan

/-- The pull of `s` is answered by `p` after `n` firings. -/
inductive Answered (t : Table α τ) : Nat → Scan → Journal α → Pull α τ → Prop where
  | idle {s : Scan} {j : Journal α} (done : s.done = true) : Answered t 0 s j ⟨s, j, none⟩
  | ended {s : Scan} {j : Journal α} (undone : s.done = false) (nothing : s.upcoming = none) :
    Answered t 0 s j (finish t s.machine j)
  | last {s : Scan} {j : Journal α} {ch : Char} {hops : Nat} {rest : List Char} {p : Pull α τ}
      (undone : s.done = false) (up : s.upcoming = some (ch, hops, rest))
      (settled : settle rest ch hops (s.machine.fire t ch hops j) = .answer p) :
    Answered t 1 s j p
  | onward {n : Nat} {s s' : Scan} {j j' : Journal α} {ch : Char} {hops : Nat}
      {rest : List Char} {p : Pull α τ} (undone : s.done = false)
      (up : s.upcoming = some (ch, hops, rest))
      (settled : settle rest ch hops (s.machine.fire t ch hops j) = .onward s' j')
      (later : Answered t n s' j' p) :
    Answered t (n + 1) s j p

section

variable {t : Table α τ} (hl : t.limits.maxHops.toNat < hopCeiling) (total : t.factory.Total)
include hl total

/-- Every pull is answered within the allowance. -/
theorem answered_pull (s : Scan) (j : Journal α) :
    ∃ n ≤ allowance t s, Answered t n s j (pull t s j) := by
  induction s, j using scan_induction hl total with
  | done s j hd =>
    rw [pull_done t j hd]
    exact ⟨0, Nat.zero_le _, .idle hd⟩
  | ended s j hd hu =>
    rw [pull_ended hd hu]
    exact ⟨0, Nat.zero_le _, .ended hd hu⟩
  | errored s j ch hops rest m k e hd hu ho =>
    rw [pull_errored hd hu ho]
    exact ⟨1, allowance_pos t hd, .last hd hu (by rw [ho]; rfl)⟩
  | fired s j ch hops rest m k reaction s' hd hu ho hs ih =>
    rw [pull_fired hd hu ho hs]
    have uses := allowance_after hd hu (Machine.within_of_fire_ok ho) hs
    cases token : reaction.token with
    | none =>
      obtain ⟨n, hn, later⟩ := ih
      exact ⟨n + 1, by omega, .onward hd hu (by simp [ho, settle, hs, token]) later⟩
    | some given => exact ⟨1, by omega, .last hd hu (by simp [ho, settle, hs, token])⟩

/-- The allowance pays for the items. -/
theorem length_items_le (s : Scan) (j : Journal α) :
    (transcript t s j).items.length ≤ allowance t s := by
  induction s, j using scan_induction hl total with
  | done s j hd => simp [hd]
  | ended s j hd hu =>
    have left := allowance_pos t hd
    rw [transcript_ended hd hu]
    cases (finish t s.machine j).item with
    | none => exact Nat.zero_le _
    | some item => exact left
  | errored s j ch hops rest m k e hd hu ho =>
    rw [transcript_errored hd hu ho]
    exact allowance_pos t hd
  | fired s j ch hops rest m k reaction s' hd hu ho hs ih =>
    have uses := allowance_after hd hu (Machine.within_of_fire_ok ho) hs
    rw [transcript_fired hd hu ho hs]
    cases reaction.token with
    | none => exact Nat.le_trans ih (Nat.le_of_lt uses)
    | some token => exact Nat.lt_of_le_of_lt ih uses

/-- A pull takes from the allowance what it spends on calls. -/
theorem pull_spends (s : Scan) (j : Journal α) :
    allowance t (pull t s j).scan ≤ allowance t s ∧
      (pull t s j).journal.calls.size + allowance t (pull t s j).scan ≤
        j.calls.size + allowance t s := by
  induction s, j using scan_induction hl total with
  | done s j hd =>
    rw [pull_done t j hd]
    exact ⟨Nat.le_refl _, Nat.le_refl _⟩
  | ended s j hd hu =>
    have left := allowance_pos t hd
    obtain ⟨calls, made, one, -⟩ := Machine.calls_of_flushEnd t s.machine j
    rw [pull_ended hd hu, allowance_done t rfl]
    simp only [finish, made, Array.size_append, List.size_toArray]
    omega
  | errored s j ch hops rest m k e hd hu ho =>
    have left := allowance_pos t hd
    obtain ⟨calls, made, one, -⟩ := Machine.calls_of_fire ho
    rw [pull_errored hd hu ho, allowance_done t rfl]
    simp only [made, Array.size_append, List.size_toArray]
    omega
  | fired s j ch hops rest m k reaction s' hd hu ho hs ih =>
    have uses := allowance_after hd hu (Machine.within_of_fire_ok ho) hs
    obtain ⟨calls, made, one, -⟩ := Machine.calls_of_fire ho
    have grown : k.calls.size = j.calls.size + calls.length := by simp [made]
    rw [pull_fired hd hu ho hs]
    cases reaction.token with
    | none =>
      dsimp only
      omega
    | some token =>
      dsimp only
      omega

theorem pulled_spends (k : Nat) (s : Scan) (j : Journal α) :
    allowance t (pulled t k s j).1 ≤ allowance t s ∧
      (pulled t k s j).2.calls.size + allowance t (pulled t k s j).1 ≤
        j.calls.size + allowance t s := by
  induction k generalizing s j with
  | zero => exact ⟨Nat.le_refl _, Nat.le_refl _⟩
  | succ k ih =>
    obtain ⟨less, pays⟩ := pull_spends hl total s j
    obtain ⟨less', pays'⟩ := ih (pull t s j).scan (pull t s j).journal
    exact ⟨Nat.le_trans less' less, Nat.le_trans pays' pays⟩

/-- Only the last item can be an error. -/
theorem last_of_error {s : Scan} {j : Journal α} {k : Nat} {stop : Stop}
    (h : (transcript t s j).items[k]? = some (.error stop)) :
    k + 1 = (transcript t s j).items.length := by
  obtain ⟨tokens, items | ⟨e, items⟩⟩ := items_eq_tokens hl total s j
  · simp [items] at h
  · rw [items] at h ⊢
    rw [List.getElem?_append] at h
    split at h
    · simp at h
    · next beyond =>
      have bound := (List.getElem?_eq_some_iff.mp h).1
      simp only [List.length_map, List.length_singleton, List.length_append] at bound beyond ⊢
      omega

end

/-- A scan that is done stays as it is, and every pull of it gives nothing. -/
theorem nth_of_done {t : Table α τ} {s : Scan} {j : Journal α} {k : Nat}
    (h : (pulled t k s j).1.done = true) {k' : Nat} (hk : k ≤ k') :
    pulled t k' s j = pulled t k s j ∧ (nth t k' s j).item = none := by
  obtain ⟨n, rfl⟩ := Nat.exists_eq_add_of_le hk
  have same : pulled t (k + n) s j = pulled t k s j := by
    rw [pulled_add, pulled_done t _ h]
  exact ⟨same, by rw [nth, same, pull_done t _ h]⟩

/-- The pulls of a scan give finitely many items, and then nothing for ever. -/
structure Bounded (t : Table α τ) (s : Scan) (j : Journal α) (bound : Nat) : Prop where
  /-- There are so many items and no more, and only the last can be a failure. -/
  items : ∃ m ≤ bound, (∀ k, (nth t k s j).item.isSome ↔ k < m) ∧
    ∀ k stop, (nth t k s j).item = some (.error stop) → k + 1 = m
  calls : ∀ k, (pulled t k s j).2.calls.size ≤ j.calls.size + bound
  /-- A scan that is done stays as it is, without further calls or items. -/
  fused : ∀ k, (pulled t k s j).1.done = true → ∀ k' ≥ k,
    pulled t k' s j = pulled t k s j ∧ (nth t k' s j).item = none
  /-- Each pull is answered after a bounded number of firings. -/
  answered : ∀ k, ∃ n ≤ bound, Answered t n (pulled t k s j).1 (pulled t k s j).2 (nth t k s j)

/-- A text gives at most one item for each hop that its characters may take, one for
each of them, and one for the end. So many calls are made at most, too. -/
theorem pulls_are_bounded_and_fused (t : Table α τ) (hl : t.limits.maxHops.toNat < hopCeiling)
    (total : t.factory.Total) (text : String) (j : Journal α) :
    Bounded t (start text j).1 (start text j).2
      ((t.limits.maxHops.toNat + 1) * (normalize text.toList).length + 1) := by
  rw [← allowance_start t text j]
  constructor
  · refine ⟨_, length_items_le hl total _ (start text j).2, ?_, ?_⟩
    · intro k
      simp [item_nth]
    · intro k stop failed
      rw [item_nth] at failed
      exact last_of_error hl total failed
  · intro k
    have spends := (pulled_spends hl total k (start text j).1 (start text j).2).2
    exact Nat.le_trans (Nat.le_add_right _ _) spends
  · intro k hd k' hk
    exact nth_of_done hd hk
  · intro k
    have left := (pulled_spends hl total k (start text j).1 (start text j).2).1
    obtain ⟨n, hn, answered⟩ := answered_pull hl total (pulled t k _ _).1 (pulled t k _ _).2
    exact ⟨n, Nat.le_trans hn left, answered⟩

/-- Every character flushes, again and again, until its hops run out. -/
def stutterTable : Table Nat String where
  rows := #[⟨0, [⟨.any, .reduce, 0⟩]⟩]
  nonempty := by decide
  factory := fun _ call => .ok (some call.text)
  limits := ⟨1⟩

/-- The bound is met: two hops give two tokens, and the error is the third item. -/
theorem pulls_are_bounded_and_fused_stutter :
    stutterTable.limits.maxHops.toNat < hopCeiling ∧ stutterTable.factory.Total ∧
      (stutterTable.transcript "a" ({} : Journal Nat)).items =
        [.ok "", .ok "", .error (.error (.hopLimitExceeded 'a' "0" 1))] ∧
      Bounded stutterTable (start "a" ({} : Journal Nat)).1 (start "a" {}).2 3 := by
  have hl : stutterTable.limits.maxHops.toNat < hopCeiling := by decide
  have total : stutterTable.factory.Total := fun _ call => ⟨some call.text, rfl⟩
  have done : (pulled stutterTable 3 (start "a" ({} : Journal Nat)).1 (start "a" {}).2).1.done =
      true := by decide +kernel
  refine ⟨hl, total, ?_, pulls_are_bounded_and_fused stutterTable hl total "a" {}⟩
  rw [Table.transcript, transcript_of_pulled done]
  decide +kernel

end Scan

end TableLexer
