import Editorial.Failure
import Editorial.Json.Columns

/-!
# Failures as JSON

A failure is reported as an object with the name of its kind and, where the
wording is this library's, its message; the failure of a task also names the
operation and the task and holds the failure behind it.

A failure can be given as an object as well, with its kind and a text of its
own.
-/

namespace Editorial

namespace FailureKind

/-- All kinds. -/
def all : List FailureKind :=
  [.notAllowed, .invalidState, .concurrentModification, .transitionFailed, .handleNotFound,
   .versionNotFound, .invalidArgument, .invalidTransitionTable, .duplicateRule, .contentStore,
   .config, .serialization, .io, .database]

/-- The name of a kind. -/
def name : FailureKind → String
  | .notAllowed => "NotAllowed"
  | .invalidState => "InvalidState"
  | .concurrentModification => "ConcurrentModification"
  | .transitionFailed => "TransitionFailed"
  | .handleNotFound => "HandleNotFound"
  | .versionNotFound => "VersionNotFound"
  | .invalidArgument => "InvalidArgument"
  | .invalidTransitionTable => "InvalidTransitionTable"
  | .duplicateRule => "DuplicateRule"
  | .contentStore => "ContentStore"
  | .config => "Config"
  | .serialization => "Serialization"
  | .io => "Io"
  | .database => "Database"

/-- The kind with this name. -/
def ofName? (s : String) : Option FailureKind := all.find? fun kind => kind.name = s

theorem ofName?_name (kind : FailureKind) : ofName? kind.name = some kind := by
  cases kind <;> decide

end FailureKind

namespace Failure

open Json

/-- The failure as it is reported. -/
def toJson (failure : Failure) : Json :=
  let head := ("error", Json.string failure.kind.name) ::
    (failure.message?.map fun message => ("message", Json.string message)).toList
  match failure with
  | inTask operation task source =>
      .object (head ++
        [("operation", .string operation), ("task", .string task), ("source", toJson source)])
  | _ => .object head

/-- The failure that an object gives, with failures behind failures at most
`depth` deep. -/
def ofJsonWithin? : (depth : Nat) → Json → Option Failure
  | 0, _ => none
  | depth + 1, j => do
      let kind ← FailureKind.ofName? (← need? "kind" string? j)
      match kind with
      | .concurrentModification =>
          return contention (← need? "handle" string? j)
            (← need? "attempts" (natBelow? UInt32.size) j)
      | .transitionFailed =>
          return inTask (← need? "operation" string? j) (← need? "task" string? j)
            (← need? "source" (ofJsonWithin? depth) j)
      | _ => return reported kind (← orElse? "message" string? "" j)

/-- The failure that an object gives. -/
def ofJson? (j : Json) : Option Failure := ofJsonWithin? 128 j

end Failure

end Editorial
