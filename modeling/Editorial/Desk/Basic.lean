import Editorial.Pipeline.Fire
import Editorial.Settings.Basic

/-!
# The desk

A desk carries out operations under some settings and a transition table. One
attempt at an operation loads the record, fires the operation, checks what the
pipeline left, and commits it together with the staged changes in one set; the
event is logged after the commit. If another writer was first, the attempt is
made again. Operations that only read stop before the commit.

## Main results

* `ofSettings_eq_ok_iff` — a desk can be set up exactly if its settings are usable.
-/

namespace Editorial

/-- Settings and a transition table. -/
structure Desk where
  settings : Settings := {}
  table : Table := .standard

namespace Desk

/-- The desk with these settings, if they are usable. -/
def ofSettings (settings : Settings) (table : Table) : Except Failure Desk := do
  settings.check
  return ⟨settings, table⟩

theorem ofSettings_eq_ok_iff (settings : Settings) (table : Table) :
    ofSettings settings table = .ok ⟨settings, table⟩ ↔ settings.IsUsable := by
  rw [← Settings.check_eq_ok_iff]
  unfold ofSettings
  cases settings.check <;> simp [bind, Except.bind, pure, Except.pure]

/-- A log for the events of the desk. -/
def newLog (desk : Desk) : EventLog := .empty desk.settings.eventCapacity.toNat

/-! ## One attempt -/

/-- The record `id` in the hands of `user`. -/
def load (id user : String) : Flow Handle := do
  match ← Flow.load id with
  | none => throw (.handleMissing id)
  | some stored => return ⟨stored.record, stored.revision, user⟩

/-- Fires an operation on a handle and answers what its pipeline leaves. -/
def perform (desk : Desk) (op : Operation) (arguments : Arguments) (h : Handle) : Flow Work :=
  ExceptT.mk do
    let (result, w) ← (desk.table.fire ⟨arguments, desk.settings.folderCategory⟩ op).run ⟨h, {}⟩
    return result.map fun _ => w

/-- The changes that commit what a pipeline on the record `id` leaves. The
record has to pass its checks unless it is removed. -/
def changes (id : String) (w : Work) : Except Failure (List Change) := do
  if w.transaction.deletes then
    return .delete id w.handle.revision :: w.transaction.staged
  else
    w.handle.record.check
    return .put w.handle.record (some w.handle.revision) :: w.transaction.staged

/-- What is logged of an operation on the record `id` by `user`. -/
def notice (id user : String) (op : Operation) (t : Transaction) (now : Instant) : Notice where
  handle := id
  operation := op
  user := user
  timestamp := now
  result := t.result.map Document.reference
  created := t.created
  deleted := t.deletes

/-- One attempt at an operation, from loading the record to logging the
event. -/
def attempt (desk : Desk) (id user : String) (op : Operation) (arguments : Arguments) :
    Flow (Attempt Transaction) := do
  let w ← desk.perform op arguments (← load id user)
  match ← Flow.commit (← changes id w) with
  | .conflict _ => return .conflict
  | .committed =>
      Process.log (notice id user op w.transaction (← Process.now))
      return .committed w.transaction

/-! ## Operations -/

/-- Carries out an operation that only reads. -/
def read (desk : Desk) (id user : String) (op : Operation) (arguments : Arguments) :
    Flow Work := do
  desk.perform op arguments (← load id user)

/-- Carries out an operation. -/
def execute (desk : Desk) (id user : String) (op : Operation) (arguments : Arguments) :
    Flow Transaction := do
  if op.isReadOnly then return (← desk.read id user op arguments).transaction
  else
    desk.settings.retry.run Process.pause id fun _ => desk.attempt id user op arguments

end Desk

end Editorial
