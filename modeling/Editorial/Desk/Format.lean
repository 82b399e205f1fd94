import Editorial.Desk.Call
import Editorial.Hints.Format
import Editorial.Pipeline.Format
import Editorial.Store.Format

/-!
# Calls as JSON

A call is given by the name of its operation and an object with what it
carries besides. Contents that are missing are null.
-/

namespace Editorial

open Json

/-! ## Arguments -/

/-- The arguments an object gives, for a call at the time `clock`. A content is
given if its field is there at all. -/
def Arguments.ofJson? (clock : Instant) (j : Json) : Option Arguments := do
  return {
    request := ← may? "request" string? j
    reason := ← may? "reason" string? j
    date := ← may? "date" Instant.ofJson? j
    destination := ← may? "destination" string? j
    newName := ← may? "new_name" string? j
    timestamp := ← may? "timestamp" Instant.ofJson? j
    target := ← may? "target" Reference.ofJson? j
    content := (j.field? "content").map Payload.ofJson
    now := ← orElse? "now" Instant.ofJson? clock j }

/-! ## Calls -/

namespace Call

/-- The content an object gives, null if it gives none. -/
def contentOf (j : Json) : Payload := ((j.field? "content").map Payload.ofJson).getD .null

/-- The call for an operation that an object gives. Operations for later dates
are called by the operations they put off. -/
def ofJson? (op : Operation) (j : Json) : Option Call := do
  let request := need? "request" string? j
  let name := need? "name" string? j
  let date := may? "date" Instant.ofJson? j
  let timestamp := need? "timestamp" Instant.ofJson? j
  match op with
  | .obtain => return obtain
  | .commit => return commit
  | .dispose => return dispose
  | .update => return update (contentOf j)
  | .unlock => return unlock
  | .publish => return publish (← date)
  | .depublish => return depublish (← date)
  | .schedulePublish | .scheduleDepublish => none
  | .delete => return delete
  | .copy => return copy (← need? "destination" string? j) (← name)
  | .move => return move (← need? "destination" string? j) (← name)
  | .rename => return rename (← name)
  | .requestPublication => return requestPublication (← date)
  | .requestDepublication => return requestDepublication (← date)
  | .requestDeletion => return requestDeletion
  | .acceptRequest => return acceptRequest (← request)
  | .rejectRequest => return rejectRequest (← request) (← may? "reason" string? j)
  | .cancelRequest => return cancelRequest (← request)
  | .runScheduled => return runScheduled (← need? "now" Instant.ofJson? j)
  | .version => return version
  | .restoreVersion => return restoreVersion (← timestamp)
  | .restoreVersionTo =>
      return restoreVersionTo (← timestamp) (← need? "target" Reference.ofJson? j)
  | .retrieveVersion => return retrieveVersion (← timestamp)
  | .listVersions => return listVersions

end Call

/-! ## Replies -/

/-- The reply as a value. -/
def Reply.toJson : Reply → Json
  | .done => .null
  | .document d => d.toJson
  | .request id => .string id
  | .versions catalogue =>
      .object (catalogue.map fun entry => (entry.1.write, ofStrings entry.2.toList))
  | .hints found => found.toJson

end Editorial
