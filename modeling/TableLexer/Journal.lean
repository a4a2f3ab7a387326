import TableLexer.Factory
import TableLexer.Log.Event

/-!
# Journals

What has happened so far: the calls of the factory and the log events, each in
order. Every operation that calls or logs takes a journal and hands it on longer.
-/

namespace TableLexer

structure Journal (α : Type) where
  calls : Array (Call α) := #[]
  events : Array (Event α) := #[]

namespace Journal

variable {α : Type}

def record (j : Journal α) (call : Call α) : Journal α := { j with calls := j.calls.push call }

def log (j : Journal α) (event : Event α) : Journal α := { j with events := j.events.push event }

@[simp] theorem calls_record (j : Journal α) (call : Call α) :
    (j.record call).calls = j.calls.push call := rfl
@[simp] theorem events_record (j : Journal α) (call : Call α) :
    (j.record call).events = j.events := rfl
@[simp] theorem calls_log (j : Journal α) (event : Event α) : (j.log event).calls = j.calls := rfl
@[simp] theorem events_log (j : Journal α) (event : Event α) :
    (j.log event).events = j.events.push event := rfl

end Journal

end TableLexer
