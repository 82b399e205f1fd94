import Editorial.Json.Basic

/-!
# Records as JSON

A record is written as an object with one field per column. It is read from an
object with a field for each column, in any order and among others, or from an
array of all its columns in order. A column that comes twice makes an object
unreadable; fields that are no columns are passed over.
-/

namespace Editorial

namespace Json

/-- The values of the field called `name`, in the order of the text. -/
def fieldValues (name : String) (fields : List (String × Json)) : List Json :=
  fields.filterMap fun field => if field.1 = name then some field.2 else none

/-- The value of a column, if the object has it. Nothing is answered for an
object that has it twice. -/
def column? (name : String) (fields : List (String × Json)) : Option (Option Json) :=
  match fieldValues name fields with
  | [] => some none
  | [value] => some (some value)
  | _ => none

/-- The values of the columns called `names`, where the object has them. -/
def columns? (names : List String) : Json → Option (List (Option Json))
  | .object fields => names.mapM fun name => column? name fields
  | .array items => if items.length = names.length then some (items.map some) else none
  | _ => none

/-- Like `columns?`, but of an array the last columns may be missing. -/
def leadingColumns? (names : List String) : Json → Option (List (Option Json))
  | .array items =>
      if items.length ≤ names.length then
        some (items.map some ++ List.replicate (names.length - items.length) none)
      else none
  | j => columns? names j

/-- The value of the field called `name`; of several the first. -/
def field? (name : String) : Json → Option Json
  | .object fields => Entries.lookup name fields
  | _ => none

/-! ## Values of columns -/

/-- A column that has to be there. -/
def required? {α : Type} (read : Json → Option α) : Option Json → Option α
  | some j => read j
  | none => none

/-- A column that may be missing or null. -/
def optional? {α : Type} (read : Json → Option α) : Option Json → Option (Option α)
  | none => some none
  | some .null => some none
  | some j => (read j).map some

/-- The field called `name`, which has to be there. -/
def need? {α : Type} (name : String) (read : Json → Option α) (j : Json) : Option α :=
  required? read (j.field? name)

/-- The field called `name`, which may be missing or null. -/
def may? {α : Type} (name : String) (read : Json → Option α) (j : Json) : Option (Option α) :=
  optional? read (j.field? name)

/-- The field called `name`, or `default` where it is missing or null. -/
def orElse? {α : Type} (name : String) (read : Json → Option α) (default : α) (j : Json) :
    Option α :=
  (may? name read j).map fun value => value.getD default

/-- A column that takes `default` where it is missing. -/
def defaulted? {α : Type} (read : Json → Option α) (default : α) : Option Json → Option α
  | none => some default
  | some j => read j

/-- A text. -/
def string? : Json → Option String
  | .string s => some s
  | _ => none

/-- A truth value. -/
def boolean? : Json → Option Bool
  | .boolean b => some b
  | _ => none

/-- A natural number below `bound`. -/
def natBelow? (bound : Nat) : Json → Option Nat
  | .integer n => if 0 ≤ n ∧ n < bound then some n.toNat else none
  | _ => none

/-- A list of values. -/
def list? {α : Type} (read : Json → Option α) : Json → Option (List α)
  | .array items => items.mapM read
  | _ => none

/-- An object as a collection: of equal names the last field stays, but each
has to be readable. -/
def keyed? {α : Type} (read : Json → Option α) : Json → Option (Keyed α)
  | .object fields =>
      (fields.mapM fun field => (read field.2).map fun value => (field.1, value)).map Keyed.ofList
  | _ => none

/-- One of the names of a type. A name may also be written as an object whose
only field has that name and the value null. -/
def tag? {α : Type} (ofName? : String → Option α) : Json → Option α
  | .string s => ofName? s
  | .object [(name, .null)] => ofName? name
  | _ => none

/-- A content. -/
def payload? (j : Json) : Option Payload := some (Payload.ofJson j)

/-! ## Writing -/

/-- A value that may be missing. -/
def ofOption {α : Type} (write : α → Json) : Option α → Json
  | none => .null
  | some a => write a

/-- A list of texts. -/
def ofStrings (texts : List String) : Json := .array (texts.map .string)

/-- A natural number. -/
def ofNat (n : Nat) : Json := .integer n

end Json

end Editorial
