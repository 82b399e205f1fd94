import Editorial.Hints.Guard

/-!
# Hints

Hints tell a user which operations a document allows, under the names of the
operations, together with whether it is live, whether it can be previewed and
who works on it. What can be done with a request is listed per request.

`Hints.ofHandle` derives the hints of a handle; `Hints.allows` looks an
operation up in them.
-/

namespace Editorial

/-- What can be done with each request: for every request id, for the name of
each action, whether it is allowed. -/
abbrev RequestHints := Keyed (Keyed Bool)

/-- One hint. -/
inductive Hint where
  | flag (value : Bool)
  | text (value : String)
  | requests (value : RequestHints)
deriving DecidableEq

/-- Hints by their keys. -/
abbrev Hints := Keyed Hint

namespace Hints

/-- The key that tells whether the document is live. -/
def isLiveKey : String := "isLive"

/-- The key that tells whether the document can be previewed. -/
def previewKey : String := "previewAvailable"

/-- The key that names the user who holds the draft. -/
def inUseByKey : String := "inUseBy"

/-- The key of what can be done with each request. -/
def requestsKey : String := "requests"

/-! ## Looking up -/

/-- Whether the flag `key` is set. -/
def isSet (hints : Hints) (key : String) : Bool :=
  match hints.get? key with
  | some (.flag true) => true
  | _ => false

/-- The user who holds the draft. -/
def inUseBy? (hints : Hints) : Option String :=
  match hints.get? inUseByKey with
  | some (.text user) => some user
  | _ => none

/-- What can be done with the request `id`. -/
def actions? (hints : Hints) (id : String) : Option (Keyed Bool) :=
  match hints.get? requestsKey with
  | some (.requests requests) => requests.get? id
  | _ => none

/-- Whether the hints allow `op`; for an operation that decides about a
request, whether they allow it for the request `id?`. -/
def allows (hints : Hints) (op : Operation) (id? : Option String) : Bool :=
  if op.isRequestScoped then
    ((do (← hints.actions? (← id?)).get? op.hintKey) : Option Bool).getD false
  else hints.isSet op.hintKey

/-! ## Deriving -/

/-- What can be done with the request `q`. Only the pending request can be
decided about, and only while it is not scheduled. -/
def ofRequest (h : Handle) (q : Request) : Keyed Bool :=
  let decidable := h.record.pending?.any (fun p => p.id = q.id) && !q.kind.isScheduled
  Keyed.ofList
    [(Operation.acceptRequest.hintKey, decidable && h.canCarryOut q),
     (Operation.rejectRequest.hintKey, decidable),
     (Operation.cancelRequest.hintKey, true)]

/-- What can be done with each request of the handle. -/
def requests (h : Handle) : RequestHints :=
  Keyed.ofList (h.record.requests.map fun q => (q.id, ofRequest h q))

/-- The operations that are allowed or not whatever the request. -/
def flagged : List Operation := Operation.all.filter fun op => !op.isRequestScoped

/-- Whether the operations are allowed. Of operations that share a key the
first one counts. -/
def flags (h : Handle) : Hints :=
  Keyed.ofList (flagged.reverse.map fun op => (op.hintKey, .flag (h.allows op)))

/-- The hints of a handle. -/
def ofHandle (h : Handle) : Hints :=
  let hints := (flags h).insert isLiveKey (.flag h.isLive)
  let hints := hints.insert previewKey (.flag h.hasPreview)
  let hints := match h.holder? with
    | none => hints
    | some holder => hints.insert inUseByKey (.text holder)
  hints.insert requestsKey (.requests (requests h))

end Hints

end Editorial
