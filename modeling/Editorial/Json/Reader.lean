import Editorial.Json.Shape
import Editorial.Json.Token

/-!
# Reading JSON

`Json.readAs?` reads one value with white space around it, for a shape.
Objects keep their fields as they stand in the text, without those that the
shape passes over. Containers may be nested 127 deep, but within a value that
is passed over they may be nested to any depth.
-/

namespace Editorial

namespace Json

open Text Scan

/-! ## Passing over values -/

/-- Passes over a name and its colon. -/
def skipName (bound : Nat) : Scan Unit := do
  spaces
  skipString bound
  spaces
  char ':'

/-- Passes over the rest of a value inside containers that are to be closed by
`closers`, the innermost first. If `complete` is set, a value has just ended,
and else one has to come. Each round but the last takes a character. -/
def skipRest (bound : Nat) : (rounds : Nat) → (complete : Bool) → (closers : List Char) →
    Scan Unit
  | 0, _, _ => failure
  | _ + 1, true, [] => return ()
  | rounds + 1, true, close :: closers => do
      spaces
      match ← takeIf (· = ',') with
      | none => do char close; skipRest bound rounds true closers
      | some _ => do
          if close = '}' then skipName bound
          skipRest bound rounds false (close :: closers)
  | rounds + 1, false, closers => do
      spaces
      match ← peek with
      | some '[' => do
          char '['
          spaces
          match ← takeIf (· = ']') with
          | some _ => skipRest bound rounds true closers
          | none => skipRest bound rounds false (']' :: closers)
      | some '{' => do
          char '{'
          spaces
          match ← takeIf (· = '}') with
          | some _ => skipRest bound rounds true closers
          | none => do skipName bound; skipRest bound rounds false ('}' :: closers)
      | _ => do skipScalar bound; skipRest bound rounds true closers

/-- Passes over a value. -/
def skipValue (bound : Nat) : Scan Unit := skipRest bound (bound + 1) false []

/-! ## Reading values -/

/-- The items of a container up to `close`, separated by commas; `item` reads
the item at a place. -/
def scanItems {α : Type} (bound : Nat) (item : Nat → Scan α) (close : Char) :
    Scan (List α) := do
  spaces
  match ← takeIf (· = close) with
  | some _ => return []
  | none =>
      let first ← item 0
      let rest ← manyFrom (fun i => do spaces; char ','; spaces; item i) bound 1
      spaces
      char close
      return first :: rest

/-- A field of an object: its name, a colon and its value, which `value` reads
for a shape. Nothing is answered for a field that is passed over. -/
def scanField (bound : Nat) (value : Shape → Scan Json) (shape : Shape) :
    Scan (Option (String × Json)) := do
  let name ← scanString bound
  spaces
  char ':'
  spaces
  match shape.field? name with
  | some inner => return some (name, ← value inner)
  | none => do skipValue bound; return none

/-- A value, with containers nested at most `depth` deep. -/
def scanValue (bound : Nat) : (depth : Nat) → Shape → Scan Json
  | 0, _ => scanScalar bound
  | depth + 1, shape => do
      match ← peek with
      | some '[' =>
          char '['
          return .array (← scanItems bound (fun i => scanValue bound depth (shape.item i)) ']')
      | some '{' =>
          char '{'
          let fields ← scanItems bound
            (fun _ => scanField bound (scanValue bound depth) shape) '}'
          return .object (fields.filterMap id)
      | _ => scanScalar bound

/-- How deep containers may be nested. -/
def depthLimit : Nat := 127

/-- The value a text holds, read for a shape, if the text holds one value and
nothing else. -/
def readAs? (shape : Shape) (s : String) : Option Json :=
  whole (do spaces; let j ← scanValue s.length depthLimit shape; spaces; return j) s

/-- The value a text holds, with all its fields. -/
def read? (s : String) : Option Json := readAs? .value s

end Json

end Editorial
