import Editorial.Record.Basic

/-!
# Operations

The operations of the workflow and the arguments they take.
-/

namespace Editorial

/-- What a user can do to a document. -/
inductive Operation where
  /-- Take a draft for editing. -/
  | obtain
  /-- Make the draft the unpublished variant. -/
  | commit
  /-- Throw the draft away. -/
  | dispose
  /-- Write the draft's content. -/
  | update
  /-- Take the draft from the user who holds it. -/
  | unlock
  | publish
  | schedulePublish
  | depublish
  | scheduleDepublish
  | delete
  | copy
  | move
  | rename
  | requestPublication
  | requestDepublication
  | requestDeletion
  | acceptRequest
  | rejectRequest
  | cancelRequest
  /-- Carry out a scheduled request whose date has come. -/
  | runScheduled
  /-- Keep the unpublished content in the history. -/
  | version
  /-- Put a kept content back into the unpublished variant. -/
  | restoreVersion
  /-- Put a kept content into some variant of some document. -/
  | restoreVersionTo
  | listVersions
  | retrieveVersion
deriving DecidableEq

namespace Operation

/-- All operations, in the order in which they are listed to users. -/
def all : List Operation :=
  [.obtain, .commit, .dispose, .update, .unlock, .publish, .schedulePublish, .depublish,
   .scheduleDepublish, .delete, .copy, .move, .rename, .requestPublication,
   .requestDepublication, .requestDeletion, .acceptRequest, .rejectRequest, .cancelRequest,
   .runScheduled, .version, .restoreVersion, .restoreVersionTo, .listVersions,
   .retrieveVersion]

/-- The name of an operation in hints, events and messages. -/
def name : Operation → String
  | .obtain => "obtainEditableInstance"
  | .commit => "commitEditableInstance"
  | .dispose => "disposeEditableInstance"
  | .update => "updateEditableInstance"
  | .unlock => "unlock"
  | .publish => "publish"
  | .schedulePublish => "schedulePublish"
  | .depublish => "depublish"
  | .scheduleDepublish => "scheduleDepublish"
  | .delete => "delete"
  | .copy => "copy"
  | .move => "move"
  | .rename => "rename"
  | .requestPublication => "requestPublication"
  | .requestDepublication => "requestDepublication"
  | .requestDeletion => "requestDeletion"
  | .acceptRequest => "acceptRequest"
  | .rejectRequest => "rejectRequest"
  | .cancelRequest => "cancelRequest"
  | .runScheduled => "runScheduled"
  | .version => "version"
  | .restoreVersion => "restoreVersion"
  | .restoreVersionTo => "versionRestoreTo"
  | .listVersions => "listVersions"
  | .retrieveVersion => "retrieveVersion"

/-- The operation with this name. -/
def ofName? (s : String) : Option Operation := all.find? fun op => op.name = s

theorem mem_all (op : Operation) : op ∈ all := by cases op <;> decide

theorem ofName?_name (op : Operation) : ofName? op.name = some op := by cases op <;> decide

/-- The key of the hint that tells whether an operation is allowed. Doing
something later is allowed when doing it now is. -/
def hintKey : Operation → String
  | .schedulePublish => Operation.publish.name
  | .scheduleDepublish => Operation.depublish.name
  | op => op.name

/-- Whether the operation only reads. -/
def isReadOnly (op : Operation) : Bool := op = .listVersions || op = .retrieveVersion

/-- Whether the operation decides about one request, so that its hint is given
for each request. -/
def isRequestScoped (op : Operation) : Bool :=
  op = .acceptRequest || op = .rejectRequest || op = .cancelRequest

/-- The operation that carries out a request; none carries out a rejected one. -/
def resolving? : RequestKind → Option Operation
  | .publication | .scheduledPublication => some .publish
  | .depublication | .scheduledDepublication => some .depublish
  | .deletion => some .delete
  | .rejected => none

end Operation

/-- The arguments of an operation. Each operation takes some of them and
passes over the others. -/
structure Arguments where
  /-- The request to decide about. -/
  request : Option String := none
  /-- Why a request is rejected. -/
  reason : Option String := none
  /-- When a change is to take effect. -/
  date : Option Instant := none
  /-- The container to copy or move to. -/
  destination : Option String := none
  /-- The name after copying, moving or renaming. -/
  newName : Option String := none
  /-- The time whose version is asked for. -/
  timestamp : Option Instant := none
  /-- The variant a version is put into. -/
  target : Option Reference := none
  /-- The content to write. -/
  content : Option Payload := none
  /-- The instant at which dates are judged. -/
  now : Instant
deriving DecidableEq

end Editorial
