import TableLexer.Journal
import TableLexer.Table

/-!
# Drafts of tables

A draft collects rules by the labels of their states. A script of directives
writes it; a cursor, at first on the initial state, lets a directive leave out the
state it is about. `build` numbers the states and turns a draft into a table. It
fails if the initial state or the target of a rule has no rules of its own: naming
a state does not declare it, only a rule does.
-/

namespace TableLexer

/-- A rule that names its target by label. -/
structure DraftRule (α : Type) where
  pattern : Predicate
  action : Action
  next : α

/-- The rules of one state, in the order they were added. -/
structure Block (α : Type) where
  state : α
  rules : List (DraftRule α)

/-- A draft keeps its blocks in the order of the first rule of each. -/
structure Draft (α : Type) where
  init : α
  cursor : α
  blocks : List (Block α) := []
  limits : Limits := {}

/-- A step of a script. The same rule is added once for each of the patterns. -/
inductive Directive (α : Type) where
  /-- Put the cursor on a state. -/
  | focus (state : α)
  | limit (limits : Limits)
  | addEach (state : α) (patterns : List Predicate) (action : Action) (next : α)
  /-- Rules from the state under the cursor. -/
  | onEach (patterns : List Predicate) (action : Action) (next : α)
  /-- Rules from the state under the cursor back to itself. -/
  | stayEach (patterns : List Predicate) (action : Action)

namespace Directive

variable {α : Type}

def add (state : α) (pattern : Predicate) (action : Action) (next : α) : Directive α :=
  .addEach state [pattern] action next

def on (pattern : Predicate) (action : Action) (next : α) : Directive α :=
  .onEach [pattern] action next

def stay (pattern : Predicate) (action : Action) : Directive α := .stayEach [pattern] action

/-- The rules that a directive adds while the cursor is on `cursor`, each with its
state. -/
def rules (cursor : α) : Directive α → List (α × DraftRule α)
  | .focus _ | .limit _ => []
  | .addEach state patterns action next => patterns.map fun p => (state, ⟨p, action, next⟩)
  | .onEach patterns action next => patterns.map fun p => (cursor, ⟨p, action, next⟩)
  | .stayEach patterns action => patterns.map fun p => (cursor, ⟨p, action, cursor⟩)

end Directive

namespace Block

variable {α : Type} [DecidableEq α]

/-- Append a rule to the block of its state, or begin a block at the end. -/
def insert (state : α) (rule : DraftRule α) : List (Block α) → List (Block α)
  | [] => [⟨state, [rule]⟩]
  | block :: blocks =>
    if block.state = state then { block with rules := block.rules ++ [rule] } :: blocks
    else block :: insert state rule blocks

end Block

namespace Draft

variable {α τ : Type}

/-- The empty draft of a table with the given initial state. -/
def start (init : α) (limits : Limits) : Draft α := { init, cursor := init, limits }

/-- The states that have rules. -/
def states (d : Draft α) : List α := d.blocks.map (·.state)

instance [Described α] : Described (Draft α) :=
  ⟨fun d => .record "Builder"
    [("init", outline d.init), ("cursor", outline d.cursor), ("states", outline d.states),
      ("limits", outline d.limits)]⟩

section

variable [DecidableEq α]

def addRule (d : Draft α) (state : α) (rule : DraftRule α) : Draft α :=
  { d with blocks := Block.insert state rule d.blocks }

/-- Carry out a directive, with a log event for every rule. -/
def apply (directive : Directive α) (d : Draft α) (j : Journal α) : Draft α × Journal α :=
  match directive with
  | .focus state => ({ d with cursor := state }, j)
  | .limit limits => ({ d with limits }, j)
  | adding => (adding.rules d.cursor).foldl
      (fun (d, j) (state, rule) =>
        (d.addRule state rule, j.log (.ruleAdded state rule.pattern rule.action rule.next)))
      (d, j)

def run (script : List (Directive α)) (d : Draft α) (j : Journal α) : Draft α × Journal α :=
  script.foldl (fun (d, j) directive => d.apply directive j) (d, j)

def defines (d : Draft α) (state : α) : Bool := d.blocks.any fun block => block.state = state

/-- Every rule's state and target: states in the order of their blocks, and the
rules of a state in the order they were added. -/
def targets (d : Draft α) : List (α × α) :=
  d.blocks.flatMap fun block => block.rules.map fun rule => (block.state, rule.next)

/-- The first rule whose target has no rules. -/
def gap? (d : Draft α) : Option (α × α) := d.targets.find? fun edge => !d.defines edge.2

/-- The labels by number: the initial state, then the others in block order. -/
def labels (d : Draft α) : List α := d.init :: d.states.filter (· ≠ d.init)

def rulesOf (d : Draft α) (state : α) : List (DraftRule α) :=
  match d.blocks.find? fun block => block.state = state with
  | some block => block.rules
  | none => []

def row (d : Draft α) (state : α) : Row α where
  label := state
  rules := (d.rulesOf state).map fun rule => ⟨rule.pattern, rule.action, d.labels.idxOf rule.next⟩

/-- The table of a draft without gaps. -/
def toTable (d : Draft α) (factory : Factory α τ) : Table α τ where
  rows := (d.labels.map d.row).toArray
  nonempty := by simp [labels]
  factory := factory
  limits := d.limits

variable [Described α]

def build (d : Draft α) (factory : Factory α τ) (j : Journal α) :
    Except TableError (Table α τ) × Journal α :=
  if d.defines d.init then
    match d.gap? with
    | some (state, next) =>
      (.error (.noTransitions (describe next)), j.log (.targetUndefined state next))
    | none =>
      let t := d.toTable factory
      (.ok t, j.log (.tableBuilt t.init t.stateCount t.ruleCount))
  else (.error (.noTransitions (describe d.init)), j.log (.initUndefined d.init))

end

end Draft

namespace Table

variable {α τ : Type} [Described α]

/-- Try the factory on an empty text in each of the states, up to the first
failure. -/
def tryFactory (t : Table α τ) : List α → Journal α → Except TableError Unit × Journal α
  | [], j => (.ok (), j)
  | state :: states, j =>
    let call : Call α := ⟨state, "", false⟩
    match t.factory j.calls call with
    | .ok _ => t.tryFactory states (j.record call)
    | .error fault =>
      let message := fault.message.getD "unknown panic"
      (.error (.factoryFailed (describe state) message),
        (j.record call).log (.factoryFailed state message))

end Table

/-- Build, then try the factory once in each state in the order of their numbers. -/
def Draft.buildChecked {α τ : Type} [DecidableEq α] [Described α] (d : Draft α)
    (factory : Factory α τ) (j : Journal α) : Except TableError (Table α τ) × Journal α :=
  match d.build factory j with
  | (.error e, j) => (.error e, j)
  | (.ok t, j) =>
    match t.tryFactory t.labels j with
    | (.error e, j) => (.error e, j)
    | (.ok _, j) => (.ok t, j)

end TableLexer
