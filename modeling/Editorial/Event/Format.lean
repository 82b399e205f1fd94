import Editorial.Event.Basic
import Editorial.Record.Format

/-!
# Events as JSON

The numbers of events fit 64 bits.
-/

namespace Editorial

open Json

namespace Operation

/-- The operation as its name. -/
def toJson (op : Operation) : Json := .string op.name

/-- The operation a value names. -/
def ofJson? : Json → Option Operation := tag? ofName?

end Operation

namespace Event

/-- The columns of an event. -/
def columns : List String :=
  ["sequence", "handle_id", "operation", "user", "timestamp", "result", "created", "deleted"]

/-- The shape of an event. -/
def shape : Shape := .ofColumns columns [("result", Reference.shape)]

/-- The event as an object. -/
def toJson (e : Event) : Json :=
  .object
    [("sequence", .ofNat e.sequence),
     ("handle_id", .string e.handle),
     ("operation", e.operation.toJson),
     ("user", .string e.user),
     ("timestamp", e.timestamp.toJson),
     ("result", ofOption Reference.toJson e.result),
     ("created", ofStrings e.created),
     ("deleted", .boolean e.deleted)]

/-- The event a value stands for. -/
def ofJson? (j : Json) : Option Event := do
  let [sequence, handle, operation, user, timestamp, result, created, deleted] ←
    columns? columns j | none
  return {
    sequence := ← required? (natBelow? UInt64.size) sequence
    handle := ← required? string? handle
    operation := ← required? Operation.ofJson? operation
    user := ← required? string? user
    timestamp := ← required? Instant.ofJson? timestamp
    result := ← optional? Reference.ofJson? result
    created := ← required? (list? string?) created
    deleted := ← required? boolean? deleted }

end Event

end Editorial
