import TableLexer.Action
import TableLexer.Error
import TableLexer.Factory
import TableLexer.Limits
import TableLexer.Predicate

/-!
# Tables

A table has a row of rules for each of its states. States are numbered by their
place in the table and the initial state has number 0. In a row the first rule
that accepts a character wins, and the rules after it are not tried.
-/

namespace TableLexer

structure Rule where
  pattern : Predicate
  action : Action
  next : Nat

namespace Rule

/-- The first rule that accepts `c`, and all tests called to find it. -/
def first (c : Char) : List Rule → Option Rule × List CharTest
  | [] => (none, [])
  | rule :: rules =>
    match rule.pattern.probe c with
    | (true, called) => (some rule, called)
    | (false, called) =>
      let later := first c rules
      (later.1, called ++ later.2)

theorem first_fst (c : Char) (rules : List Rule) :
    (first c rules).1 = rules.find? fun rule => rule.pattern.accepts c := by
  induction rules with
  | nil => rfl
  | cons rule rules ih =>
    have value := rule.pattern.probe_fst c
    unfold first
    split
    · next h => simp_all
    · next h => simp_all

end Rule

structure Row (α : Type) where
  label : α
  rules : List Rule

structure Table (α τ : Type) where
  rows : Array (Row α)
  nonempty : 0 < rows.size
  factory : Factory α τ
  limits : Limits

namespace Table

variable {α τ : Type}

/-- The label of the initial state. -/
def init (t : Table α τ) : α :=
  have := t.nonempty
  t.rows[0].label

def label? (t : Table α τ) (id : Nat) : Option α := t.rows[id]?.map (·.label)

def stateId? [DecidableEq α] (t : Table α τ) (label : α) : Option Nat :=
  t.rows.findIdx? fun row => row.label = label

/-- The labels in the order of their numbers. -/
def labels (t : Table α τ) : List α := t.rows.toList.map (·.label)

def stateCount (t : Table α τ) : Nat := t.rows.size

def ruleCount (t : Table α τ) : Nat := (t.rows.toList.flatMap (·.rules)).length

/-- The text of a state: that of its label, or its number if there is none. -/
def stateText [Described α] (t : Table α τ) (id : Nat) : String :=
  match t.label? id with
  | some label => describe label
  | none => "#" ++ describe id

/-- The rule that state `id` has for `c`. -/
def select [Described α] (t : Table α τ) (id : Nat) (c : Char) : Except ScanError Rule :=
  match t.rows[id]? with
  | none => .error (.unknownState id)
  | some row =>
    match (Rule.first c row.rules).1 with
    | some rule => .ok rule
    | none => .error (.unhandled c (t.stateText id))

instance [Described α] : Described (Table α τ) :=
  ⟨fun t => .record "TransitionTable"
    [("states", outline t.labels), ("rule_count", outline t.ruleCount),
      ("limits", outline t.limits)]⟩

end Table

end TableLexer
