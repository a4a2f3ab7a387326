import TableLexer.Journal
import TableLexer.Table

/-!
# Machines

A machine is in a state of its table and holds the text read since the last flush.
`fire` applies one rule to a character, `feed` goes on until the character is
consumed, and `close` flushes at the end of the input. Rules are applied in a fixed
order: the state moves, then the text grows, then the factory is called, and only
when it has answered is the text let go.
-/

namespace TableLexer

structure Machine where
  state : Nat := 0
  held : String := ""
  deriving DecidableEq, Repr

/-- Why an operation ended without a result. -/
inductive Stop where
  | error (e : ScanError)
  /-- The factory failed. -/
  | fault (f : Fault)
  /-- The hop counter is at its ceiling and would have to grow. -/
  | hopOverflow
  deriving DecidableEq, Repr

/-- What an operation on a machine leaves behind. -/
structure Outcome (α β : Type) where
  machine : Machine
  journal : Journal α
  result : Except Stop β

/-- What firing a rule did to the character, with the token it flushed, if any. -/
inductive Reaction (τ : Type) where
  | consumed (token : Option τ)
  | again (token : Option τ)

def Reaction.of {τ : Type} (action : Action) (token : Option τ) : Reaction τ :=
  if action.isZeroWidth then .again token else .consumed token

/-- The verdict of a consumer on the newest of the tokens it has received. -/
abbrev Sink (τ : Type) := Array τ → Bool

/-- What a consumer has received, and whether it wants more. -/
structure Delivery (α τ : Type) where
  machine : Machine
  journal : Journal α
  received : Array τ
  result : Except Stop Bool

namespace Machine

variable {α τ : Type}

/-- The label of the current state, the initial one if it has none. -/
def label (t : Table α τ) (m : Machine) : α := (t.label? m.state).getD t.init

/-- Call the factory on the held text for state `id`, and let the text go. If the
factory fails, the text stays. -/
def flush (t : Table α τ) (m : Machine) (id : Nat) (atEnd : Bool) (j : Journal α) :
    Outcome α (Option τ) :=
  match t.label? id with
  | none => ⟨m, j, .error (.error (.unknownState id))⟩
  | some label =>
    let call : Call α := ⟨label, m.held, atEnd⟩
    match t.factory j.calls call with
    | .error fault => ⟨m, j.record call, .error (.fault fault)⟩
    | .ok token =>
      ⟨{ m with held := "" },
        (j.record call).log (.flushed label m.held atEnd token.isSome), .ok token⟩

/-- Take the transition of a rule, holding the character if the rule shifts. -/
def move (m : Machine) (rule : Rule) (ch : Char) : Machine :=
  { state := rule.next, held := if rule.action.shifts then m.held.push ch else m.held }

/-- Apply the first rule that accepts `ch`, which has taken `hops` zero-width hops
so far. The flush of a rule is for the state it is left from. -/
def fire [Described α] (t : Table α τ) (m : Machine) (ch : Char) (hops : Nat) (j : Journal α) :
    Outcome α (Reaction τ) :=
  if t.limits.maxHops.toNat < hops then
    ⟨m, j.log (.hopLimitExceeded ch (m.label t) hops),
      .error (.error (.hopLimitExceeded ch (t.stateText m.state) t.limits.maxHops))⟩
  else
    match t.select m.state ch with
    | .error e => ⟨m, j.log (.ruleMissing e), .error (.error e)⟩
    | .ok rule =>
      let j := j.log (.fired ch m.state rule.next rule.action hops)
      let moved := m.move rule ch
      if rule.action.flushes then
        let flushed := moved.flush t m.state false j
        ⟨flushed.machine, flushed.journal, flushed.result.map (Reaction.of rule.action)⟩
      else ⟨moved, j, .ok (Reaction.of rule.action none)⟩

/-- Flush at the end of the input and start over. Only a failure of the factory
leaves the machine as it was. -/
def flushEnd (t : Table α τ) (m : Machine) (j : Journal α) : Outcome α (Option τ) :=
  let flushed := m.flush t m.state true j
  match flushed.result with
  | .error (.fault fault) => ⟨flushed.machine, flushed.journal, .error (.fault fault)⟩
  | result => ⟨{}, flushed.journal, result⟩

/-- Hand a token, if there is one, to the consumer. -/
def deliver (sink : Sink τ) (received : Array τ) : Option τ → Array τ × Bool
  | none => (received, true)
  | some token =>
    let received := received.push token
    (received, sink received)

section

variable [Described α]

/-- Process a character that has taken `hops` hops until it is consumed, the
consumer refuses a token, or the machine stops. -/
def feedFrom (t : Table α τ) (sink : Sink τ) (m : Machine) (ch : Char) (hops : Nat)
    (received : Array τ) (j : Journal α) : Delivery α τ :=
  match m.fire t ch hops j with
  | ⟨m, j, .error stop⟩ => ⟨m, j, received, .error stop⟩
  | ⟨m, j, .ok (.consumed token)⟩ =>
    let (received, verdict) := deliver sink received token
    ⟨m, j, received, .ok verdict⟩
  | ⟨m, j, .ok (.again token)⟩ =>
    match deliver sink received token with
    | (received, false) => ⟨m, j, received, .ok false⟩
    | (received, true) =>
      if hops < hopCeiling then feedFrom t sink m ch (hops + 1) received j
      else ⟨m, j, received, .error .hopOverflow⟩
termination_by hopCeiling - hops

def feed (t : Table α τ) (sink : Sink τ) (m : Machine) (ch : Char) (received : Array τ)
    (j : Journal α) : Delivery α τ :=
  feedFrom t sink m ch 0 received j

/-- Feed characters until one of them does not end in a wish for more. The number
tells how many were given. -/
def feedAll (t : Table α τ) (sink : Sink τ) (m : Machine) (received : Array τ) (j : Journal α) :
    List Char → Delivery α τ × Nat
  | [] => (⟨m, j, received, .ok true⟩, 0)
  | ch :: chars =>
    match feed t sink m ch received j with
    | ⟨m, j, received, .ok true⟩ =>
      let (rest, fed) := feedAll t sink m received j chars
      (rest, fed + 1)
    | stopped => (stopped, 1)

end

/-- Flush at the end of the input and hand the token over. -/
def close (t : Table α τ) (sink : Sink τ) (m : Machine) (received : Array τ) (j : Journal α) :
    Delivery α τ :=
  match m.flushEnd t j with
  | ⟨m, j, .error stop⟩ => ⟨m, j, received, .error stop⟩
  | ⟨m, j, .ok token⟩ =>
    let (received, verdict) := deliver sink received token
    ⟨m, j, received, .ok verdict⟩

def outlineIn [Described α] (t : Table α τ) (m : Machine) : Outline :=
  .record "LexStateMachine"
    [("state", outline m.state), ("buffer", outline m.held), ("table", outline t)]

end Machine

end TableLexer
