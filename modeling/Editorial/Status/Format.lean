import Editorial.Record.Format
import Editorial.Status

/-!
# Statuses as JSON
-/

namespace Editorial.Status

open Json

/-- The columns of a status. -/
def columns : List String := ["draft", "unpublished", "published", "request"]

/-- The shape of a status. -/
def shape : Shape := .ofColumns columns

/-- The status as an object. -/
def toJson (s : Status) : Json :=
  .object
    [("draft", .boolean s.draft),
     ("unpublished", .boolean s.unpublished),
     ("published", .boolean s.published),
     ("request", ofOption RequestKind.toJson s.request)]

/-- The status a value stands for. -/
def ofJson? (j : Json) : Option Status := do
  let [draft, unpublished, published, request] ← columns? columns j | none
  return {
    draft := ← required? boolean? draft
    unpublished := ← required? boolean? unpublished
    published := ← required? boolean? published
    request := ← optional? RequestKind.ofJson? request }

end Editorial.Status
