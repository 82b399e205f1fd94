import Editorial.Data.Keyed

/-!
# Folders

Documents are copied and moved into containers. Which containers there are,
and which of them take documents, is registered per category.
-/

namespace Editorial

/-- A container as registered under some category. -/
structure Folder where
  container : String
  /-- Whether documents can be filed in it. -/
  embeds : Bool
deriving DecidableEq

/-- The registered containers, by category and then by container. -/
abbrev Folders := Keyed (Keyed Folder)

namespace Folders

/-- The container as registered under `category`. -/
def folder? (folders : Folders) (category container : String) : Option Folder := do
  (← folders.get? category).get? container

/-- Registers a container under `category`, in place of an earlier entry. -/
def register (folders : Folders) (category container : String) (embeds : Bool) : Folders :=
  folders.insert category
    (((folders.get? category).getD .empty).insert container ⟨container, embeds⟩)

theorem folder?_register_self (folders : Folders) (category container : String)
    (embeds : Bool) :
    (folders.register category container embeds).folder? category container =
      some ⟨container, embeds⟩ := by
  simp [folder?, register]

end Folders

end Editorial
