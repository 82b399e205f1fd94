import Editorial.Toml.Scalar

/-!
# Reading TOML

`Toml.read?` reads a document of version 1.0 of the format and answers the
fields of its root. Arrays and tables in braces may be nested 79 deep, and a
key may have as many parts. A byte order mark in front is passed over.
-/

namespace Editorial.Toml

open Text Scan

/-- How deep values may be nested, and how many parts a key may have. -/
def depthLimit : Nat := 79

/-! ## Keys -/

/-- Whether `c` may stand in a key without quotes. -/
def isBare (c : Char) : Bool := c.isAlphanum || c = '-' || c = '_'

/-- One part of a key. -/
def scanPart (bound : Nat) : Scan String := do
  match ← peek with
  | some '"' => scanBasic bound
  | some '\'' => scanLiteral
  | _ => return String.ofList (← run1 isBare)

/-- A key: its parts but the last, and the last. -/
def scanKey (bound : Nat) : Scan (List String × String) := do
  let part : Scan String := do gap; let name ← scanPart bound; gap; return name
  let first ← part
  let rest ← many (do char '.'; part) bound
  guard (rest.length < depthLimit)
  return ((first :: rest).dropLast, rest.getLast?.getD first)

/-! ## Values -/

/-- A comment, up to the end of its line. -/
def scanComment : Scan Unit := do
  char '#'
  let _ ← run isPlain

/-- Blanks, comments and line ends, which may stand between the items of an
array. -/
def scanSpace (bound : Nat) : Scan Unit := do
  gap
  let _ ← many (do let _ ← maybe scanComment; newline; gap) bound

/-- The items of an array after its opening bracket. A comma may follow the
last one. -/
def scanItems (bound : Nat) (value : Scan Node) : Scan (List Node) := do
  let item : Scan Node := do scanSpace bound; let v ← value; scanSpace bound; return v
  let items ← match ← maybe item with
    | none => pure []
    | some first => do
        let rest ← many (do char ','; item) bound
        let _ ← maybe (char ',')
        pure (first :: rest)
  scanSpace bound
  char ']'
  return items

/-- A key, an equals sign and a value. -/
def scanPair (bound : Nat) (value : Scan Node) : Scan ((List String × String) × Node) := do
  let key ← scanKey bound
  char '='
  gap
  let v ← value
  gap
  return (key, v)

/-- The fields of a table in braces after its opening brace. They stand on one
line, and no comma follows the last one. -/
def scanFields (bound : Nat) (value : Scan Node) :
    Scan (List ((List String × String) × Node)) := do
  let pairs ← match ← maybe (scanPair bound value) with
    | none => pure []
    | some first => do
        let rest ← many (do char ','; scanPair bound value) bound
        pure (first :: rest)
  gap
  char '}'
  return pairs

/-- The table in braces that has these fields. -/
def closedTable? (pairs : List ((List String × String) × Node)) : Option Node := do
  let root ← pairs.foldlM (fun node pair =>
    match node with
    | .table origin fields => addAt pair.1.1 pair.1.2 pair.2 origin fields
    | _ => none) (Node.table .opened [])
  match root with
  | .table _ fields => return .table .closed fields
  | _ => none

/-- A value, with others nested in it at most `depth` deep. -/
def scanValue (bound : Nat) : (depth : Nat) → Scan Node
  | 0 => scanScalar bound
  | depth + 1 => do
      match ← peek with
      | some '[' =>
          char '['
          return .array (← scanItems bound (scanValue bound depth))
      | some '\x7b' =>
          char '\x7b'
          (closedTable? (← scanFields bound (scanValue bound depth)) : Option Node)
      | _ => scanScalar bound

/-! ## Documents -/

/-- A document as far as it was read: the fields of its root, and the table to
which the next field is added. -/
structure Document where
  fields : Fields := []
  header : List String := []

namespace Document

/-- Changes the root. -/
def change (doc : Document) (f : Origin → Fields → Option Node) : Option Document := do
  match ← f .opened doc.fields with
  | .table _ fields => return { doc with fields := fields }
  | _ => none

/-- Adds a field to the table that is open. -/
def add (doc : Document) (key : List String × String) (value : Node) : Option Document :=
  doc.change (descend false (addAt key.1 key.2 value) doc.header)

/-- Takes a header: opens its table with `f` and adds to that table from now
on. -/
def enter (doc : Document) (key : List String × String)
    (f : String → Origin → Fields → Option Node) : Option Document := do
  let doc ← doc.change (descend false (f key.2) key.1)
  return { doc with header := key.1 ++ [key.2] }

end Document

/-- The rest of a line: blanks and a comment, up to its end or to the end of
the text. -/
def scanLineEnd : Scan Unit := do
  gap
  let _ ← maybe scanComment
  match ← peek with
  | none => return
  | some _ => newline

/-- A line with a header. -/
def scanHeader (bound : Nat) (doc : Document) : Scan Document := do
  char '['
  let (key, f) ← match ← takeIf (· = '[') with
    | some _ => do let key ← scanKey bound; word "]]"; pure (key, openNext)
    | none => do let key ← scanKey bound; char ']'; pure (key, openTable)
  scanLineEnd
  (doc.enter key f : Option Document)

/-- A line with a field. -/
def scanEntry (bound : Nat) (doc : Document) : Scan Document := do
  let (key, value) ← scanPair bound (scanValue bound depthLimit)
  scanLineEnd
  (doc.add key value : Option Document)

/-- A line: a header, a field, or nothing but blanks and a comment. -/
def scanLine (bound : Nat) (doc : Document) : Scan Document := do
  gap
  match ← peek with
  | some '[' => scanHeader bound doc
  | some '#' | some '\n' | some '\r' => scanLineEnd; return doc
  | _ => scanEntry bound doc

/-- The lines of a document; there are no more than `rounds`. -/
def scanLines (bound : Nat) : (rounds : Nat) → Document → Scan Document
  | 0, doc => return doc
  | rounds + 1, doc => do
      gap
      match ← peek with
      | none => return doc
      | some _ => scanLines bound rounds (← scanLine bound doc)

/-- The fields of the root of the document that a text holds. -/
def read? (s : String) : Option Fields :=
  let bound := s.length
  whole (do
    let _ ← maybe (char '\uFEFF')
    return (← scanLines bound bound {}).fields) s

end Editorial.Toml
