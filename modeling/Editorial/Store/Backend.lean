import Editorial.Failure
import Editorial.Json.Reread
import Editorial.Record.Format
import Editorial.Store.Stepwise
import Editorial.Store.Whole

/-!
# Backends

A store is kept in memory, where a set of changes is judged as a whole, or in
a table, where it is made step by step. A table keeps records as texts, so
what it hands out are records read again. It takes any record, but a text with
containers nested too deep is not read, so a record may be put in a table from
which it cannot be loaded.
-/

namespace Editorial

/-! ## Records in a table -/

/-- The record read from the text of a record; only its contents can differ. -/
def Record.reread (r : Record) : Record :=
  let variant (v : Variant) : Variant := { v with content := v.content.reread }
  { r with
    variants := ⟨r.variants.draft.map variant, r.variants.unpublished.map variant,
      r.variants.published.map variant⟩
    history := r.history.map fun s => { s with content := s.content.reread } }

/-- Whether the text of a record can be read. -/
def Record.isReadable (r : Record) : Bool := r.toJson.depth ≤ Json.depthLimit

/-- The failure to read a text with containers nested too deep. -/
def Failure.nestedTooDeep : Failure := .reported .serialization "recursion limit exceeded"

/-- Reads the text of a record. -/
def Record.reread? (r : Record) : Except Failure Record :=
  if r.isReadable then .ok r.reread else .error .nestedTooDeep

/-! ## Loading and committing -/

/-- The ways a store keeps records and decides about a set of changes. -/
inductive Backend where
  /-- In memory, judging a set as a whole. -/
  | whole
  /-- In a table, making the changes of a set step by step. -/
  | stepwise
deriving DecidableEq

namespace Backend

/-- Hands out a record that is stored. -/
def handOut? : Backend → Stored → Except Failure Stored
  | whole, stored => .ok stored
  | stepwise, stored => stored.record.reread?.map fun record => { stored with record := record }

/-- Hands out the record `id`, if it is stored. -/
def load (b : Backend) (s : Store) (id : String) : Except Failure (Option Stored) :=
  match s.get? id with
  | none => .ok none
  | some stored => (b.handOut? stored).map some

/-- Commits a set of changes in the way of the backend. -/
def commit : Backend → Store → List Change → Verdict × Store
  | whole, s, changes => s.commitWhole changes
  | stepwise, s, changes => s.commitStepwise changes

end Backend

end Editorial
