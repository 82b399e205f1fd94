import Editorial.Store.Basic

/-!
# Committing a set of changes as a whole

The set is judged against the store as it is before any of the changes. First
every change has to expect the revision that is there. Then no two records may
end up in one place: a record that is put somewhere conflicts with an earlier
put of another record of the set, and with a stored record that the set leaves
alone.
-/

namespace Editorial

namespace Store

/-- The first change that does not expect the revision that is there. -/
def stale? (s : Store) (changes : List Change) : Option Change :=
  changes.find? fun change => s.revision? change.id ≠ change.expected?

/-- Whether a stored record that is not one of `written` is filed at `location`. -/
def isTaken (s : Store) (written : List String) (location : Location) : Bool :=
  s.entries.any fun entry =>
    !written.contains entry.1 && entry.2.record.location = some location

/-- Whether `change` puts its record where another record of `earlier` goes, or
where a record stays that is not one of `written`. -/
def isCrowded (s : Store) (written : List String) (earlier : List Change) (change : Change) :
    Bool :=
  match change.location? with
  | none => false
  | some location =>
      earlier.any (fun other => other.location? = some location && other.id ≠ change.id)
        || s.isTaken written location

/-- The first change of `changes`, which follow `earlier`, that is crowded. -/
def crowded? (s : Store) (written : List String) :
    (earlier changes : List Change) → Option Change
  | _, [] => none
  | earlier, change :: rest =>
      if s.isCrowded written earlier change then some change
      else crowded? s written (earlier ++ [change]) rest

/-- The first change that keeps the set from being made. -/
def conflict? (s : Store) (changes : List Change) : Option Change :=
  match s.stale? changes with
  | some change => some change
  | none => s.crowded? (changes.map Change.id) [] changes

/-- Makes all changes, or none if there is a conflict. -/
def commitWhole (s : Store) (changes : List Change) : Verdict × Store :=
  match s.conflict? changes with
  | some change => (.conflict change.id, s)
  | none => (.committed, s.applyAll changes)

end Store

end Editorial
