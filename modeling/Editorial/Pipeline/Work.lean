import Editorial.Handle
import Editorial.Process

/-!
# Work in hand

An operation is a pipeline of tasks. Tasks share the handle they work on and a
transaction, in which they note what is to happen besides: changes to other
records, the removal of the handle, and what the caller gets back. Nothing of
it reaches the store before the whole pipeline is through.

An `Act` is what a task does. It may take steps, it may change the work in
hand, and it may fail; what was changed before a failure stays changed, though
a failed pipeline is never committed.
-/

namespace Editorial

/-- What a pipeline leaves besides the changed handle. -/
structure Transaction where
  /-- Changes to other records. -/
  staged : List Change := []
  /-- Whether the handle is to be removed. -/
  deletes : Bool := false
  /-- What the caller gets back. -/
  result : Option Document := none
  /-- The request that was filed. -/
  request : Option String := none
  /-- The handles that were made. -/
  created : List String := []
deriving DecidableEq

/-- The handle a pipeline works on and its transaction. -/
structure Work where
  handle : Handle
  transaction : Transaction := {}
deriving DecidableEq

/-- What the tasks of a pipeline read but never change. -/
structure Context where
  arguments : Arguments
  /-- The category under which destinations are looked up. -/
  category : String
deriving DecidableEq

/-- What a task does with the work in hand. -/
abbrev Act := ExceptT Failure (StateT Work Process)

namespace Act

variable {α : Type}

/-- Takes steps that may fail. -/
def ofFlow (flow : Flow α) : Act α :=
  ExceptT.mk fun w => do return (← flow.run, w)

/-- The handle as it is now. -/
def handle : Act Handle := do return (← get).handle

/-- Changes the record. -/
def changeRecord (f : Record → Record) : Act Unit :=
  modify fun w => { w with handle := { w.handle with record := f w.handle.record } }

/-- Changes the transaction. -/
def changeTransaction (f : Transaction → Transaction) : Act Unit :=
  modify fun w => { w with transaction := f w.transaction }

/-- Notes what the caller gets back. -/
def setResult (d : Document) : Act Unit := changeTransaction fun t => { t with result := some d }

/-- Notes a change to another record. -/
def stage (change : Change) : Act Unit :=
  changeTransaction fun t => { t with staged := t.staged ++ [change] }

/-- The value of an argument that has to be given. -/
def require (what : String) : Option α → Act α
  | some a => pure a
  | none => throw (.argument (.missing what))

/-- The variant in the place of `stage`, which has to exist. -/
def requireVariant (stage : Stage) : Act Variant := do
  let h ← handle
  match h.variant? stage with
  | some v => return v
  | none => throw (.state (.variantMissing h.id stage))

/-- A new variant of the acting user, who holds it if it is a draft. -/
def newVariant (stage : Stage) (content : Payload) : Act Variant := do
  let user := (← handle).user
  let now ← Process.now
  let id ← Process.fresh .variant
  let v := Variant.make id stage content user now
  return if stage = .draft then { v with holder := some user } else v

/-- When a variant that enters the place of `stage` was published. -/
def publicationTime (stage : Stage) : Act (Option Instant) := do
  if stage = .published then return some (← Process.now) else return none

end Act

end Editorial
