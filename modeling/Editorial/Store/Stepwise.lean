import Editorial.Store.Basic

/-!
# Committing a set of changes step by step

The changes are made one after another, each judged against the store that the
earlier ones left. A new record needs an id that is not in use; a replaced or
removed one has to be at the expected revision; and no record may be put where
another record is filed at that moment. The first change that cannot be made
takes back all before it.
-/

namespace Editorial

namespace Store

/-- Whether a record other than `id` is filed at `location`. -/
def isOccupied (s : Store) (id : String) (location : Location) : Bool :=
  s.entries.any fun entry => entry.1 ≠ id && entry.2.record.location = some location

/-- Whether the store, as it is now, admits a change. -/
def admits (s : Store) (change : Change) : Bool :=
  s.revision? change.id = change.expected?
    && change.location?.all fun location => !s.isOccupied change.id location

/-- Makes changes as long as they are admitted: the store in the end, or the
change that was not. -/
def applyStepwise (s : Store) : List Change → Except Change Store
  | [] => .ok s
  | change :: rest =>
      if s.admits change then (s.apply change).applyStepwise rest else .error change

/-- Makes all changes, or none if one of them is not admitted. -/
def commitStepwise (s : Store) (changes : List Change) : Verdict × Store :=
  match s.applyStepwise changes with
  | .error change => (.conflict change.id, s)
  | .ok s' => (.committed, s')

end Store

end Editorial
