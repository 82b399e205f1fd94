import Editorial.Json.Basic

/-!
# What a text is read for

Who reads a text knows the columns of the records it is to hold. A field that
is no column is passed over, and of its value nothing is asked but that it is
well formed: it may be nested to any depth and hold what has no value. A shape
tells the reader which fields to pass over.
-/

namespace Editorial

namespace Json

/-- What a text is read for. -/
inductive Shape where
  /-- A value that is kept as it is. -/
  | value
  /-- A record with these columns. -/
  | record (columns : List (String × Shape))
  /-- A list. -/
  | list (item : Shape)
  /-- An object with any names. -/
  | keyed (item : Shape)

namespace Shape

/-- A record with columns of these names. The columns that hold records in turn
are given in `nested`, all others hold values. -/
def ofColumns (names : List String) (nested : List (String × Shape) := []) : Shape :=
  record (names.map fun name => (name, (Entries.lookup name nested).getD value))

/-- The shape of the field called `name`, unless it is passed over. -/
def field? (name : String) : Shape → Option Shape
  | record columns => Entries.lookup name columns
  | keyed item => some item
  | value | list _ => some value

/-- The shape of the item at `i` of an array. -/
def item (i : Nat) : Shape → Shape
  | record columns => (columns[i]?.map Prod.snd).getD value
  | list item => item
  | value | keyed _ => value

end Shape

end Json

end Editorial
