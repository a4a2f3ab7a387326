import TableLexer.Text.Outline

/-!
# Errors of tables and scans

Errors carry the text of the state they name, so that they do not depend on the
type of the labels.
-/

namespace TableLexer

/-- Why a draft is not a table. -/
inductive TableError where
  /-- The state is needed but has no rules. -/
  | noTransitions (state : String)
  /-- The factory failed when it was tried in the state. -/
  | factoryFailed (state message : String)
  deriving DecidableEq, Repr

namespace TableError

def message : TableError → String
  | .noTransitions state => "no transitions defined for state " ++ state
  | .factoryFailed state message =>
    "token factory panicked in state " ++ state ++ ": " ++ message

instance : Described TableError :=
  ⟨fun
    | .noTransitions state => .record "NoTransitions" [("state", outline state)]
    | .factoryFailed state message =>
      .record "FactoryPanicked" [("state", outline state), ("message", outline message)]⟩

end TableError

/-- Why a scan cannot go on. -/
inductive ScanError where
  /-- No rule of the state accepts the character. -/
  | unhandled (ch : Char) (state : String)
  /-- The character took more zero-width hops than the limit allows. -/
  | hopLimitExceeded (ch : Char) (state : String) (limit : UInt64)
  | unknownState (id : Nat)
  deriving DecidableEq, Repr

namespace ScanError

def message : ScanError → String
  | .unhandled ch state => "unhandled character " ++ describe ch ++ " in state " ++ state
  | .hopLimitExceeded ch state _ =>
    "bailing from potential stack overflow in state " ++ state ++ " on character " ++ describe ch
  | .unknownState id => "unexpected state id " ++ describe id

instance : Described ScanError :=
  ⟨fun
    | .unhandled ch state =>
      .record "UnhandledCharacter" [("ch", outline ch), ("state", outline state)]
    | .hopLimitExceeded ch state limit =>
      .record "HopLimitExceeded"
        [("ch", outline ch), ("state", outline state), ("limit", outline limit.toNat)]
    | .unknownState id => .tuple "UnknownState" [outline id]⟩

end ScanError

end TableLexer
