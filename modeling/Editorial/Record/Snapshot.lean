import Editorial.Json.Basic
import Editorial.Time.Instant

/-!
# Version history

A snapshot keeps the unpublished content of one moment. The history of a
handle lists its snapshots, the oldest first, and is only ever added to. The
snapshot in force at an instant is the last one taken at or before it.
-/

namespace Editorial

/-- A content kept in the version history. -/
structure Snapshot where
  /-- When the snapshot was taken. -/
  timestamp : Instant
  /-- The version's own name. -/
  name : String
  /-- Further names of the version. -/
  labels : Names
  content : Payload
deriving DecidableEq

namespace Snapshot

/-- The version's own name and its labels. -/
def names (s : Snapshot) : Names := s.labels.add s.name

/-- The last snapshot of a history taken at or before `t`. -/
def inForce? (history : List Snapshot) (t : Instant) : Option Snapshot :=
  history.reverse.find? fun s => s.timestamp ≤ t

/-- Whether the snapshots of a history were taken one after another. -/
def Ordered : List Snapshot → Prop
  | [] => True
  | [_] => True
  | a :: b :: rest => a.timestamp < b.timestamp ∧ Ordered (b :: rest)

/-- `Ordered` is decidable: it compares neighbours. -/
def decideOrdered : (history : List Snapshot) → Decidable (Ordered history)
  | [] => isTrue trivial
  | [_] => isTrue trivial
  | a :: b :: rest =>
      have := decideOrdered (b :: rest)
      inferInstanceAs (Decidable (a.timestamp < b.timestamp ∧ Ordered (b :: rest)))

instance (history : List Snapshot) : Decidable (Ordered history) := decideOrdered history

/-- The name of the next version of a history. -/
def nextName (history : List Snapshot) : String := "1." ++ toString history.length

/-! ## Catalogue -/

/-- Enters the names of a version into a catalogue, in the order of time. Names
that stood there for the same instant are replaced. -/
def enter (t : Instant) (names : Names) : List (Instant × Names) → List (Instant × Names)
  | [] => [(t, names)]
  | entry :: rest =>
      if t < entry.1 then (t, names) :: entry :: rest
      else if t = entry.1 then (t, names) :: rest
      else entry :: enter t names rest

/-- The names of all versions of a history, by the time they were taken. -/
def catalogue (history : List Snapshot) : List (Instant × Names) :=
  history.foldl (fun entries s => enter s.timestamp s.names entries) []

end Snapshot

end Editorial
