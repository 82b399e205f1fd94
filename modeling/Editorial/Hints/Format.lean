import Editorial.Hints.Basic
import Editorial.Json.Columns

/-!
# Hints as JSON

Hints are an object. The form of a value tells what kind of hint it is: a flag
is a truth value, a text a string, and what can be done with requests an object
of objects of truth values.
-/

namespace Editorial

open Json

namespace Hint

/-- The hint as a value. -/
def toJson : Hint → Json
  | .flag value => .boolean value
  | .text value => .string value
  | .requests value =>
      .object (value.entries.map fun entry =>
        (entry.1, .object (entry.2.entries.map fun action => (action.1, .boolean action.2))))

/-- The hint a value stands for. -/
def ofJson? : Json → Option Hint
  | .boolean value => some (.flag value)
  | .string value => some (.text value)
  | j => (keyed? (keyed? boolean?) j).map .requests

end Hint

namespace Hints

/-- The hints as an object. -/
def toJson (hints : Hints) : Json :=
  .object (hints.entries.map fun entry => (entry.1, entry.2.toJson))

/-- The hints an object stands for. -/
def ofJson? : Json → Option Hints := keyed? Hint.ofJson?

end Hints

end Editorial
