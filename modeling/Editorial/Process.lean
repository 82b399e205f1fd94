import Editorial.Event.Basic
import Editorial.Failure
import Editorial.Folder
import Editorial.Store.Basic

/-!
# Processes

A call to the workflow is not one step: it loads a record, may ask the store
and the folders more questions, commits, may have to wait and start over, and
logs an event; between any two of these steps other callers can act. A
`Process` is the tree of what a call does for every answer it may get. It can
be run against a system in one go, interleaved with other processes, or
against surroundings that fail, and it is the same process in all of them.

A process can also break off. Two things do that: a version taken after the
calendar's last instant, and operations that fire one another without end.

## Main results

* `LawfulMonad Process` — sequencing processes is associative.
* `run_bind` — running a sequence is running its parts in turn.
-/

namespace Editorial

/-- What a new name is for. -/
inductive NameKind where
  | handle
  | variant
  | request
deriving DecidableEq

/-- A step of a process: something it asks for or does. -/
inductive Query where
  /-- What time is it? -/
  | now
  /-- A name that was never used. -/
  | fresh (kind : NameKind)
  /-- The record `id` at its current revision. -/
  | load (id : String)
  /-- The id of the record filed at `location`. -/
  | find (location : Location)
  /-- The container as registered under `category`. -/
  | folder (category container : String)
  /-- Commit a set of changes. -/
  | commit (changes : List Change)
  /-- Wait. -/
  | pause (milliseconds : Nat)
  /-- Log an event. -/
  | log (notice : Notice)

/-- What a step is answered with. Stores and folders may fail. -/
abbrev Query.Answer : Query → Type
  | .now => Instant
  | .fresh _ => String
  | .load _ => Except Failure (Option Stored)
  | .find _ => Except Failure (Option String)
  | .folder _ _ => Except Failure (Option Folder)
  | .commit _ => Except Failure Verdict
  | .pause _ => Unit
  | .log _ => Unit

/-- A computation that takes its steps one at a time. -/
inductive Process (α : Type) where
  /-- The process has ended with a result. -/
  | done (a : α)
  /-- The process has broken off. -/
  | broken
  /-- The process takes a step and goes on with the answer. -/
  | ask (query : Query) (next : query.Answer → Process α)

namespace Process

variable {α β γ σ : Type}

/-! ## Sequencing -/

/-- Goes on with `f` where the process ends. -/
def bind : Process α → (α → Process β) → Process β
  | done a, f => f a
  | broken, _ => broken
  | ask query next, f => ask query fun answer => (next answer).bind f

instance : Monad Process where
  pure := done
  bind := bind

@[simp] theorem pure_eq (a : α) : (pure a : Process α) = done a := rfl
@[simp] theorem bind_eq (p : Process α) (f : α → Process β) : p >>= f = p.bind f := rfl
@[simp] theorem bind_done (a : α) (f : α → Process β) : (done a).bind f = f a := rfl
@[simp] theorem bind_broken (f : α → Process β) : (broken : Process α).bind f = broken := rfl
@[simp] theorem bind_ask (query : Query) (next : query.Answer → Process α) (f : α → Process β) :
    (ask query next).bind f = ask query fun answer => (next answer).bind f := rfl

theorem bind_done_right (p : Process α) : p.bind done = p := by
  induction p with
  | done a => rfl
  | broken => rfl
  | ask query next ih => simp [ih]

theorem bind_assoc (p : Process α) (f : α → Process β) (g : β → Process γ) :
    (p.bind f).bind g = p.bind fun a => (f a).bind g := by
  induction p with
  | done a => rfl
  | broken => rfl
  | ask query next ih => simp [ih]

instance : LawfulMonad Process := LawfulMonad.mk' Process
  (fun p => bind_done_right p) (fun _ _ => rfl) (fun p f g => bind_assoc p f g)

/-! ## Single steps -/

/-- Takes one step. -/
def step (query : Query) : Process query.Answer := ask query done

/-- What time it is. -/
def now : Process Instant := step .now

/-- A name that was never used. -/
def fresh (kind : NameKind) : Process String := step (.fresh kind)

/-- Waits. -/
def pause (milliseconds : Nat) : Process Unit := step (.pause milliseconds)

/-- Logs an event. -/
def log (notice : Notice) : Process Unit := step (.log notice)

/-! ## Running -/

/-- Runs a process to its end, where `answer` gives the answer to each step in
a state and the state after it. Nothing is answered if the process breaks
off. -/
def run (answer : σ → (query : Query) → query.Answer × σ) : Process α → σ → Option α × σ
  | done a, s => (some a, s)
  | broken, s => (none, s)
  | ask query next, s => (next (answer s query).1).run answer (answer s query).2

/-- Running a sequence is running its parts in turn. -/
theorem run_bind (answer : σ → (query : Query) → query.Answer × σ) (p : Process α)
    (f : α → Process β) (s : σ) :
    (p.bind f).run answer s =
      match p.run answer s with
      | (some a, s') => (f a).run answer s'
      | (none, s') => (none, s') := by
  induction p generalizing s with
  | done a => rfl
  | broken => rfl
  | ask query next ih => exact ih _ _

end Process

/-- A process that may fail. -/
abbrev Flow := ExceptT Failure Process

namespace Flow

/-- A step whose answer may be a failure. -/
def ofAnswer {α : Type} (p : Process (Except Failure α)) : Flow α := ExceptT.mk p

/-- The record `id` at its current revision. -/
def load (id : String) : Flow (Option Stored) := ofAnswer (Process.step (.load id))

/-- The id of the record filed at `location`. -/
def find (location : Location) : Flow (Option String) :=
  ofAnswer (Process.step (.find location))

/-- The container as registered under `category`. -/
def folder (category container : String) : Flow (Option Folder) :=
  ofAnswer (Process.step (.folder category container))

/-- Commits a set of changes. -/
def commit (changes : List Change) : Flow Verdict := ofAnswer (Process.step (.commit changes))

end Flow

end Editorial
