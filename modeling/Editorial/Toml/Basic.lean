import Editorial.Data.Keyed

/-!
# TOML documents

A TOML document is a tree of tables. A table can come into being in four ways,
and how it did decides who may still add to it: a header opens a table once; a
header for a table inside it makes it in passing, so that its own header may
still follow; a dotted key makes it, and only dotted keys add to it; and a
table written in braces is closed for good.
-/

namespace Editorial.Toml

/-- How a table came into being. -/
inductive Origin where
  /-- Its header was read. -/
  | opened
  /-- A header for a table inside it was read. -/
  | passed
  /-- A dotted key led through it. -/
  | dotted
  /-- It was written in braces. -/
  | closed
deriving DecidableEq

/-- A value of a document. Of numbers with a fraction and of dates it is only
kept that they are there. -/
inductive Node where
  | string (value : String)
  | integer (value : Int)
  | float
  | boolean (value : Bool)
  | date
  | array (items : List Node)
  | table (origin : Origin) (fields : List (String × Node))
  /-- The tables that headers in double brackets opened under one name. -/
  | tables (earlier : List Node) (last : Node)

instance : Inhabited Node := ⟨.float⟩

/-- The fields of a table, sorted by their names. -/
abbrev Fields := List (String × Node)

/-! ## Adding to a document -/

/-- Whether a path may lead into a table. Closed tables are left alone, and a
dotted key does not reach into a table that has its own header. -/
def Origin.isPassable (origin : Origin) (byDots : Bool) : Bool :=
  match origin with
  | .closed => false
  | .opened => !byDots
  | .passed | .dotted => true

/-- Changes the table at the end of `path` with `f`. Tables that are missing on
the way are made. Of tables under one name the path leads into the last. -/
def descend (byDots : Bool) (f : Origin → Fields → Option Node) :
    (path : List String) → Origin → Fields → Option Node
  | [], origin, fields => f origin fields
  | name :: path, origin, fields => do
      let inner ← match Entries.lookup name fields with
        | none => descend byDots f path (if byDots then .dotted else .passed) []
        | some (.table inner sub) =>
            if inner.isPassable byDots then descend byDots f path inner sub else none
        | some (.tables earlier (.table inner sub)) =>
            (descend byDots f path inner sub).map (.tables earlier)
        | some _ => none
      return .table origin (Entries.insert name inner fields)

/-- Adds a field that is not there yet. A key with dots ends in a table that
dotted keys made, and a key without dots in one they did not make. -/
def addField (hasDots : Bool) (name : String) (value : Node) (origin : Origin)
    (fields : Fields) : Option Node :=
  if (origin = .dotted) = hasDots && (Entries.lookup name fields).isNone then
    some (.table origin (Entries.insert name value fields))
  else none

/-- Adds a field under the dotted key that `path` and `name` make. -/
def addAt (path : List String) (name : String) (value : Node) : Origin → Fields → Option Node :=
  descend true (addField (!path.isEmpty) name value) path

/-- Opens the table `name`, which no header has opened and no key has made. -/
def openTable (name : String) (origin : Origin) (fields : Fields) : Option Node := do
  let sub ← match Entries.lookup name fields with
    | none => some []
    | some (.table .passed sub) => some sub
    | some _ => none
  return .table origin (Entries.insert name (.table .opened sub) fields)

/-- Opens one more of the tables `name`. -/
def openNext (name : String) (origin : Origin) (fields : Fields) : Option Node := do
  let earlier ← match Entries.lookup name fields with
    | none => some []
    | some (.tables earlier last) => some (earlier ++ [last])
    | some _ => none
  return .table origin (Entries.insert name (.tables earlier (.table .opened [])) fields)

end Editorial.Toml
