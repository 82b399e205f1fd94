import Editorial.Time.Instant

/-!
# Editorial requests

An author asks for a document to be published, taken offline or deleted. An
editor accepts or rejects the request; an accepted one that names a later date
waits as a scheduled request, and a rejected one stays on record until its
author withdraws it. Every kind but the rejected one is pending.
-/

namespace Editorial

/-- What a request asks for, or what has become of it. -/
inductive RequestKind where
  | publication
  | depublication
  | deletion
  | rejected
  | scheduledPublication
  | scheduledDepublication
deriving DecidableEq, Repr

namespace RequestKind

/-- All kinds. -/
def all : List RequestKind :=
  [.publication, .depublication, .deletion, .rejected, .scheduledPublication,
   .scheduledDepublication]

/-- The name of a kind. -/
def name : RequestKind → String
  | .publication => "publication"
  | .depublication => "depublication"
  | .deletion => "deletion"
  | .rejected => "rejected"
  | .scheduledPublication => "scheduled-publication"
  | .scheduledDepublication => "scheduled-depublication"

/-- The kind with this name. -/
def ofName? (s : String) : Option RequestKind := all.find? fun kind => kind.name = s

theorem mem_all (kind : RequestKind) : kind ∈ all := by cases kind <;> decide

theorem ofName?_name (kind : RequestKind) : ofName? kind.name = some kind := by
  cases kind <;> decide

/-- Whether the request still waits for a decision or for its date. -/
def isPending (kind : RequestKind) : Bool := kind ≠ .rejected

/-- Whether the request was accepted and waits for its date. -/
def isScheduled : RequestKind → Bool
  | .scheduledPublication | .scheduledDepublication => true
  | _ => false

end RequestKind

/-- A request on a handle. -/
structure Request where
  id : String
  kind : RequestKind
  /-- When the change asked for is to take effect. -/
  scheduledAt : Option Instant
  /-- Why the request was rejected. -/
  reason : Option String
  requestedBy : String
  createdAt : Instant
deriving DecidableEq

namespace Request

/-- Whether the request is scheduled and its date, if it has one, has come. -/
def isDue (r : Request) (now : Instant) : Bool :=
  r.kind.isScheduled && r.scheduledAt.all fun date => date ≤ now

/-- Whether the request names a date after `now`. -/
def isDeferred (r : Request) (now : Instant) : Bool :=
  r.scheduledAt.any fun date => now < date

end Request

end Editorial
