import Editorial.Json.Reader

/-!
# Values that were written and read again

A value read from its own text is the value it was, but for its doubles:
reading rounds the significand and then scales it, so what is read from the
shortest text of a double may be a neighbour of it. A value whose containers are
nested deeper than `Json.depthLimit` is not read at all.
-/

namespace Editorial

/-- The double read from the text of `d`. -/
def Double.reread (d : Double) : Double :=
  match Json.scanNumber d.write with
  | some (.double e, _) => e
  | _ => d

namespace Json

mutual

/-- The value read from the text of a value. -/
def reread : Json → Json
  | .double value => .double value.reread
  | .array items => .array (rereadItems items)
  | .object fields => .object (rereadFields fields)
  | .null => .null
  | .boolean value => .boolean value
  | .integer value => .integer value
  | .string value => .string value

/-- `reread` on every item. -/
def rereadItems : List Json → List Json
  | [] => []
  | item :: items => reread item :: rereadItems items

/-- `reread` on every field. -/
def rereadFields : List (String × Json) → List (String × Json)
  | [] => []
  | (name, value) :: fields => (name, reread value) :: rereadFields fields

end

mutual

/-- How deep containers are nested in a value. -/
def depth : Json → Nat
  | .array items => depthItems items + 1
  | .object fields => depthFields fields + 1
  | .null => 0
  | .boolean _ => 0
  | .integer _ => 0
  | .double _ => 0
  | .string _ => 0

/-- How deep containers are nested in any of the items. -/
def depthItems : List Json → Nat
  | [] => 0
  | item :: items => max (depth item) (depthItems items)

/-- How deep containers are nested in any of the fields. -/
def depthFields : List (String × Json) → Nat
  | [] => 0
  | (_, value) :: fields => max (depth value) (depthFields fields)

end

end Json

/-- The content read from the text of a content. -/
def Payload.reread (p : Payload) : Payload := .ofJson p.json.reread

end Editorial
