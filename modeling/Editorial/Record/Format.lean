import Editorial.Json.Columns
import Editorial.Json.Shape
import Editorial.Record.Basic
import Editorial.Time.Format

/-!
# Records as JSON

How records and their parts are written and read. The variants of a record are
an object with the names of their places as its keys.
-/

namespace Editorial

open Json

/-! ## Stages and kinds -/

namespace Stage

/-- The stage as its name. -/
def toJson (stage : Stage) : Json := .string stage.name

/-- The stage a value names. -/
def ofJson? : Json → Option Stage := tag? ofName?

end Stage

namespace RequestKind

/-- The kind as its name. -/
def toJson (kind : RequestKind) : Json := .string kind.name

/-- The kind a value names. -/
def ofJson? : Json → Option RequestKind := tag? ofName?

end RequestKind

/-! ## Parts of a record -/

namespace Location

/-- The columns of a location. -/
def columns : List String := ["container", "name"]

/-- The shape of a location. -/
def shape : Shape := .ofColumns columns

/-- The location as an object. -/
def toJson (l : Location) : Json :=
  .object [("container", .string l.container), ("name", .string l.name)]

/-- The location a value stands for. -/
def ofJson? (j : Json) : Option Location := do
  let [container, name] ← columns? columns j | none
  return ⟨← required? string? container, ← required? string? name⟩

end Location

namespace Variant

/-- The columns of a variant. -/
def columns : List String :=
  ["id", "state", "content", "created_at", "created_by", "modified_at", "modified_by", "holder",
   "published_at"]

/-- The shape of a variant. -/
def shape : Shape := .ofColumns columns

/-- The variant as an object. -/
def toJson (v : Variant) : Json :=
  .object
    [("id", .string v.id),
     ("state", v.stage.toJson),
     ("content", v.content.json),
     ("created_at", v.createdAt.toJson),
     ("created_by", .string v.createdBy),
     ("modified_at", v.modifiedAt.toJson),
     ("modified_by", .string v.modifiedBy),
     ("holder", ofOption .string v.holder),
     ("published_at", ofOption Instant.toJson v.publishedAt)]

/-- The variant a value stands for. -/
def ofJson? (j : Json) : Option Variant := do
  let [id, stage, content, createdAt, createdBy, modifiedAt, modifiedBy, holder, publishedAt] ←
    columns? columns j | none
  return {
    id := ← required? string? id
    stage := ← required? Stage.ofJson? stage
    content := ← required? payload? content
    createdAt := ← required? Instant.ofJson? createdAt
    createdBy := ← required? string? createdBy
    modifiedAt := ← required? Instant.ofJson? modifiedAt
    modifiedBy := ← required? string? modifiedBy
    holder := ← optional? string? holder
    publishedAt := ← optional? Instant.ofJson? publishedAt }

end Variant

namespace Variants

/-- The variants as an object. -/
def toJson (vs : Variants) : Json :=
  .object (vs.toList.map fun entry => (entry.1.name, entry.2.toJson))

/-- The place and the variant a field stands for. -/
def entry? (field : String × Json) : Option (Stage × Variant) := do
  return (← Stage.ofName? field.1, ← Variant.ofJson? field.2)

/-- The variants an object stands for. Every field has to be named like a
stage. -/
def ofJson? : Json → Option Variants
  | .object fields => (fields.mapM entry?).map ofList
  | _ => none

end Variants

namespace Request

/-- The columns of a request. -/
def columns : List String :=
  ["id", "kind", "scheduled_at", "reason", "requested_by", "created_at"]

/-- The shape of a request. -/
def shape : Shape := .ofColumns columns

/-- The request as an object. -/
def toJson (q : Request) : Json :=
  .object
    [("id", .string q.id),
     ("kind", q.kind.toJson),
     ("scheduled_at", ofOption Instant.toJson q.scheduledAt),
     ("reason", ofOption .string q.reason),
     ("requested_by", .string q.requestedBy),
     ("created_at", q.createdAt.toJson)]

/-- The request a value stands for. -/
def ofJson? (j : Json) : Option Request := do
  let [id, kind, scheduledAt, reason, requestedBy, createdAt] ← columns? columns j | none
  return {
    id := ← required? string? id
    kind := ← required? RequestKind.ofJson? kind
    scheduledAt := ← optional? Instant.ofJson? scheduledAt
    reason := ← optional? string? reason
    requestedBy := ← required? string? requestedBy
    createdAt := ← required? Instant.ofJson? createdAt }

end Request

namespace Snapshot

/-- The columns of a snapshot. -/
def columns : List String := ["timestamp", "name", "labels", "content"]

/-- The shape of a snapshot. -/
def shape : Shape := .ofColumns columns

/-- The snapshot as an object. -/
def toJson (s : Snapshot) : Json :=
  .object
    [("timestamp", s.timestamp.toJson),
     ("name", .string s.name),
     ("labels", ofStrings s.labels.toList),
     ("content", s.content.json)]

/-- The snapshot a value stands for. -/
def ofJson? (j : Json) : Option Snapshot := do
  let [timestamp, name, labels, content] ← columns? columns j | none
  return {
    timestamp := ← required? Instant.ofJson? timestamp
    name := ← required? string? name
    labels := Names.ofList (← required? (list? string?) labels)
    content := ← required? payload? content }

end Snapshot

/-! ## Records -/

namespace Record

/-- The columns of a record. -/
def columns : List String := ["id", "location", "variants", "requests", "history"]

/-- The shape of a record. -/
def shape : Shape := .ofColumns columns
  [("location", Location.shape),
   ("variants", .keyed Variant.shape),
   ("requests", .list Request.shape),
   ("history", .list Snapshot.shape)]

/-- The record as an object. -/
def toJson (r : Record) : Json :=
  .object
    [("id", .string r.id),
     ("location", ofOption Location.toJson r.location),
     ("variants", r.variants.toJson),
     ("requests", .array (r.requests.map Request.toJson)),
     ("history", .array (r.history.map Snapshot.toJson))]

/-- The record a value stands for. -/
def ofJson? (j : Json) : Option Record := do
  let [id, location, variants, requests, history] ← columns? columns j | none
  return {
    id := ← required? string? id
    location := ← optional? Location.ofJson? location
    variants := ← required? Variants.ofJson? variants
    requests := ← required? (list? Request.ofJson?) requests
    history := ← required? (list? Snapshot.ofJson?) history }

end Record

/-! ## Views -/

namespace Reference

/-- The columns of a reference. -/
def columns : List String := ["handle_id", "state"]

/-- The shape of a reference. -/
def shape : Shape := .ofColumns columns

/-- The reference as an object. -/
def toJson (ref : Reference) : Json :=
  .object [("handle_id", .string ref.handle), ("state", ref.stage.toJson)]

/-- The reference a value stands for. -/
def ofJson? (j : Json) : Option Reference := do
  let [handle, stage] ← columns? columns j | none
  return ⟨← required? string? handle, ← required? Stage.ofJson? stage⟩

end Reference

namespace Document

/-- The columns of a document. -/
def columns : List String := ["handle_id", "variant_id", "state", "content", "version"]

/-- The shape of a document. -/
def shape : Shape := .ofColumns columns

/-- The document as an object. -/
def toJson (d : Document) : Json :=
  .object
    [("handle_id", .string d.handle),
     ("variant_id", ofOption .string d.variant),
     ("state", d.stage.toJson),
     ("content", d.content.json),
     ("version", ofOption Instant.toJson d.version)]

/-- The document a value stands for. -/
def ofJson? (j : Json) : Option Document := do
  let [handle, variant, stage, content, version] ← columns? columns j | none
  return {
    handle := ← required? string? handle
    variant := ← optional? string? variant
    stage := ← required? Stage.ofJson? stage
    content := ← required? payload? content
    version := ← optional? Instant.ofJson? version }

end Document

end Editorial
