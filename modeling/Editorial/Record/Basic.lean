import Editorial.Record.Variant
import Editorial.Record.Request
import Editorial.Record.Snapshot

/-!
# Records

A record is all that is stored of one document: its place in a folder, its
variants, its requests and its version history. A document is what an
operation hands back: a view of one variant, or of one snapshot.
-/

namespace Editorial

/-- A place in a folder. -/
structure Location where
  container : String
  name : String
deriving DecidableEq

/-- The container and the name, with a slash between. -/
def Location.text (l : Location) : String := l.container ++ "/" ++ l.name

/-- All that is stored of one document. -/
structure Record where
  id : String
  /-- The place in a folder, if the document is filed in one. -/
  location : Option Location
  variants : Variants
  /-- Pending and rejected requests, the oldest first. -/
  requests : List Request
  /-- The version history, the oldest first. -/
  history : List Snapshot
deriving DecidableEq

namespace Record

/-- A new document with the single variant `v`. -/
def single (id : String) (location : Option Location) (v : Variant) : Record where
  id := id
  location := location
  variants := Variants.empty.put v.stage (some v)
  requests := []
  history := []

/-- The record with `v?` in the place of `stage`. -/
def putVariant (r : Record) (stage : Stage) (v? : Option Variant) : Record :=
  { r with variants := r.variants.put stage v? }

/-- The first request with this id. -/
def request? (r : Record) (id : String) : Option Request :=
  r.requests.find? fun q => q.id = id

/-- The first request that is pending. -/
def pending? (r : Record) : Option Request :=
  r.requests.find? fun q => q.kind.isPending

/-- The record without the requests that have this id. -/
def dropRequest (r : Record) (id : String) : Record :=
  { r with requests := r.requests.filter fun q => q.id ≠ id }

/-- The record with `f` applied to the first request that has this id. -/
def changeRequest (r : Record) (id : String) (f : Request → Request) : Record :=
  { r with requests := go r.requests }
where
  go : List Request → List Request
    | [] => []
    | q :: rest => if q.id = id then f q :: rest else q :: go rest

end Record

/-! ## Views -/

/-- A variant of a handle, by name. -/
structure Reference where
  handle : String
  stage : Stage
deriving DecidableEq

/-- What an operation hands back: a variant or a snapshot of a handle. -/
structure Document where
  handle : String
  /-- The variant, or nothing for a snapshot. -/
  variant : Option String
  stage : Stage
  content : Payload
  /-- When the snapshot was taken. -/
  version : Option Instant
deriving DecidableEq

namespace Document

/-- The view of a variant. -/
def ofVariant (handle : String) (v : Variant) : Document where
  handle := handle
  variant := some v.id
  stage := v.stage
  content := v.content
  version := none

/-- The view of a snapshot; snapshots hold unpublished content. -/
def ofSnapshot (handle : String) (s : Snapshot) : Document where
  handle := handle
  variant := none
  stage := .unpublished
  content := s.content
  version := some s.timestamp

/-- The variant the view was taken from. -/
def reference (d : Document) : Reference := ⟨d.handle, d.stage⟩

end Document

end Editorial
