import Editorial.Folder
import Editorial.Record.Format
import Editorial.Store.Basic

/-!
# Stores as JSON

Stored records, changes to them, and the containers they can be filed in.
Revisions fit 64 bits.
-/

namespace Editorial

open Json

/-- A revision. -/
def revision? : Json → Option Nat := natBelow? UInt64.size

/-- The stored record as an object. -/
def Stored.toJson (stored : Stored) : Json :=
  .object [("revision", .ofNat stored.revision), ("record", stored.record.toJson)]

namespace Change

/-- The change as an object. -/
def toJson : Change → Json
  | put record expected =>
      .object [("put", record.toJson), ("expected", ofOption .ofNat expected)]
  | delete id expected => .object [("delete", .string id), ("expected", .ofNat expected)]

/-- The change an object gives. -/
def ofJson? (j : Json) : Option Change :=
  match j.field? "put" with
  | some record => do
      return put (← Record.ofJson? record) (← may? "expected" revision? j)
  | none => do
      return delete (← need? "delete" string? j) (← need? "expected" revision? j)

end Change

/-- The container as an object. -/
def Folder.toJson (folder : Folder) : Json :=
  .object [("container", .string folder.container), ("embeds", .boolean folder.embeds)]

/-- Registers the container an object gives. -/
def Folders.registerJson? (folders : Folders) (j : Json) : Option Folders := do
  return folders.register (← need? "category" string? j) (← need? "container" string? j)
    (← orElse? "embeds" boolean? true j)

end Editorial
