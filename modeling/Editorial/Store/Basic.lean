import Editorial.Record.Basic

/-!
# The store

A store keeps every record under its id, at a revision that counts how often
the record was written. Changes name the revision they mean to replace, so a
change made for an outdated record is found out. A set of changes is committed
completely or not at all; `Editorial.Store.Whole` and
`Editorial.Store.Stepwise` are two ways to decide which of the two.

## Main results

* `get?_apply` — a change writes the record it names and no other.
-/

namespace Editorial

/-- A record in a store. -/
structure Stored where
  record : Record
  /-- How often the record was written. -/
  revision : Nat
deriving DecidableEq

/-- A change to one record. -/
inductive Change where
  /-- Write a record in place of the one at revision `expected`, or as a new
  one. -/
  | put (record : Record) (expected : Option Nat)
  /-- Remove the record `id` at revision `expected`. -/
  | delete (id : String) (expected : Nat)
deriving DecidableEq

namespace Change

/-- The id of the record the change is about. -/
def id : Change → String
  | put record _ => record.id
  | delete id _ => id

/-- The revision the change replaces; none if it makes a new record. -/
def expected? : Change → Option Nat
  | put _ expected => expected
  | delete _ expected => some expected

/-- What the change leaves in the store. -/
def result? : Change → Option Stored
  | put record expected => some ⟨record, expected.elim 1 (· + 1)⟩
  | delete _ _ => none

/-- Where the record is filed after the change. -/
def location? : Change → Option Location
  | put record _ => record.location
  | delete _ _ => none

end Change

/-- What became of a set of changes. -/
inductive Verdict where
  /-- All changes were made. -/
  | committed
  /-- No change was made, as the record `id` is not as expected. -/
  | conflict (id : String)
deriving DecidableEq

/-- The stored records by their ids. -/
abbrev Store := Keyed Stored

namespace Store

/-- The revision of the record `id`. -/
def revision? (s : Store) (id : String) : Option Nat := (s.get? id).map Stored.revision

/-- The id of the record filed at `location`. -/
def find? (s : Store) (location : Location) : Option String :=
  (s.entries.find? fun entry => entry.2.record.location = some location).map
    fun entry => entry.2.record.id

/-- Makes a change, whatever was there before. -/
def apply (s : Store) (change : Change) : Store :=
  match change.result? with
  | some stored => s.insert change.id stored
  | none => s.erase change.id

/-- Makes changes one after another. -/
def applyAll (s : Store) (changes : List Change) : Store := changes.foldl apply s

theorem get?_apply (s : Store) (change : Change) (id : String) :
    (s.apply change).get? id = if id = change.id then change.result? else s.get? id := by
  unfold apply
  split <;> rename_i h
  · rw [Keyed.get?_insert, h]
  · rw [Keyed.get?_erase, h]

end Store

end Editorial
