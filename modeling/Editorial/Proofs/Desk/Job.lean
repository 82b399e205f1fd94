import Editorial.Desk.Call
import Editorial.Proofs.Pipeline.Act

/-!
# Jobs

What a client has a desk do is one of the calls about a document, or the making
of one. Either is a process that may fail; `Desk.process` makes them processes
of one type, so that clients with different jobs can work side by side.

## Main results

* `exists_head` — which changes an operation on a record commits.
* `run_create_cases` — which steps it takes to make a document.
-/

namespace Editorial

/-- What a client can have a desk do. -/
inductive Job where
  | call (id user : String) (call : Call)
  | create (location : Option Location) (stage : Stage) (content : Payload) (user : String)
deriving DecidableEq

/-- What comes of a job. -/
inductive Product where
  | reply (reply : Reply)
  | created (id : String)
deriving DecidableEq

/-- The variant that a new document has. Whoever makes it as a draft holds the draft. -/
def Variant.initial (id : String) (stage : Stage) (content : Payload) (user : String)
    (now : Instant) : Variant :=
  if stage = .draft then { Variant.make id stage content user now with holder := some user }
  else .make id stage content user now

section

variable (id : String) (stage : Stage) (content : Payload) (user : String) (now : Instant)

@[simp] theorem Variant.stage_initial : (initial id stage content user now).stage = stage := by
  unfold initial
  split <;> rfl

@[simp] theorem Variant.content_initial :
    (initial id stage content user now).content = content := by
  unfold initial
  split <;> rfl

@[simp] theorem Variant.holder_initial :
    (initial id stage content user now).holder = if stage = .draft then some user else none := by
  unfold initial
  split <;> rfl

@[simp] theorem Variant.publishedAt_initial :
    (initial id stage content user now).publishedAt = none := by
  unfold initial
  split <;> rfl

end

/-- The process that a job is. -/
def Desk.process (desk : Desk) : Job → Process (Except Failure Product)
  | .call id user call => (Product.reply <$> desk.answer id user call : Flow Product).run
  | .create location stage content user =>
      (Product.created <$> Desk.create location stage content user : Flow Product).run

namespace Flow

variable {α β : Type}

theorem run_bind (f : Flow α) (g : α → Flow β) :
    (f >>= g).run = f.run.bind fun
      | .ok a => (g a).run
      | .error failure => .done (.error failure) := by
  show Process.bind f.run _ = _
  congr 1
  funext r
  cases r <;> rfl

/-- Mapping the result of a flow leaves its steps. -/
theorem run_map (f : Flow α) (g : α → β) :
    (g <$> f : Flow β).run = f.run.bind fun r => .done (r.map g) := by
  rw [map_eq_pure_bind, run_bind]
  congr 1
  funext r
  cases r <;> rfl

end Flow

/-- Neither the container nor the name is blank. -/
def Location.IsNamed (l : Location) : Prop :=
  Text.allBlank l.container = false ∧ Text.allBlank l.name = false

namespace Desk

/-- Performing an operation is firing it on the loaded handle. -/
theorem run_perform (desk : Desk) (op : Operation) (arguments : Arguments) (h : Handle) :
    (desk.perform op arguments h).run =
      ((desk.table.fire ⟨arguments, desk.settings.folderCategory⟩ op).on ⟨h, {}⟩).bind fun r =>
        .done (r.1.map fun _ => r.2) := rfl

theorem process_call (desk : Desk) (id user : String) (call : Call) :
    desk.process (.call id user call) =
      (desk.answer id user call).run.bind fun r => .done (r.map .reply) := Flow.run_map _ _

/-- A call comes to what it is answered. -/
theorem leads_process_reply {desk : Desk} {id user : String} {call : Call} {path : List Taken}
    {reply : Reply} :
    (desk.process (.call id user call)).Leads path (some (.ok (.reply reply))) ↔
      (desk.answer id user call).run.Leads path (some (.ok reply)) := by
  rw [process_call, Process.leads_map]
  constructor
  · rintro ⟨result, hanswer, hresult⟩
    rcases result with _ | failure | reply' <;> cases hresult
    exact hanswer
  · exact fun hanswer => ⟨_, hanswer, rfl⟩

theorem process_create (desk : Desk) (location : Option Location) (stage : Stage)
    (content : Payload) (user : String) :
    desk.process (.create location stage content user) =
      (create location stage content user).run.bind fun r => .done (r.map .created) :=
  Flow.run_map _ _

/-! ## What is committed -/

/-- What is committed of a record: that it is removed, or what is left of it if
that passes the checks. The staged changes follow. -/
theorem changes_cases {id : String} {w : Work} {changes : List Change}
    (h : Desk.changes id w = .ok changes) :
    (w.transaction.deletes = true ∧
        changes = .delete id w.handle.revision :: w.transaction.staged) ∨
      (w.transaction.deletes = false ∧ w.handle.record.check = .ok () ∧
        changes = .put w.handle.record (some w.handle.revision) :: w.transaction.staged) := by
  unfold Desk.changes at h
  cases hd : w.transaction.deletes with
  | true =>
      rw [hd, if_pos rfl] at h
      cases h
      exact Or.inl ⟨rfl, rfl⟩
  | false =>
      rw [hd, if_neg Bool.false_ne_true] at h
      cases hr : w.handle.record.check with
      | error failure =>
          rw [hr] at h
          cases h
      | ok u =>
          rw [hr] at h
          cases h
          exact Or.inr ⟨rfl, rfl, rfl⟩

/-- The change to the record itself comes first. It expects the revision that was
loaded. -/
theorem exists_first {id : String} {w : Work} {changes : List Change}
    (h : Desk.changes id w = .ok changes) :
    ∃ first, changes = first :: w.transaction.staged ∧
      first.expected? = some w.handle.revision := by
  rcases changes_cases h with ⟨-, rfl⟩ | ⟨-, -, rfl⟩
  · exact ⟨_, rfl, rfl⟩
  · exact ⟨_, rfl, rfl⟩

/-- It is a change to the record in hand, and files it where it is then. -/
theorem exists_head {id : String} {w : Work} {changes : List Change}
    (h : Desk.changes id w = .ok changes) (hid : w.handle.record.id = id) :
    ∃ first, changes = first :: w.transaction.staged ∧ first.id = id ∧
      first.expected? = some w.handle.revision ∧
      (∀ place, first.location? = some place → w.handle.record.location = some place) ∧
      (w.transaction.deletes = false → first.location? = w.handle.record.location) := by
  rcases changes_cases h with ⟨hdeletes, rfl⟩ | ⟨-, -, rfl⟩
  · refine ⟨_, rfl, rfl, rfl, fun _ => nofun, fun hkeeps => ?_⟩
    rw [hkeeps] at hdeletes
    cases hdeletes
  · exact ⟨_, rfl, hid, rfl, fun place hplace => hplace, fun _ => rfl⟩

theorem changes_eq {id : String} {w : Work} (hd : w.transaction.deletes = false)
    (hr : w.handle.record.check = .ok ()) :
    Desk.changes id w =
      .ok (.put w.handle.record (some w.handle.revision) :: w.transaction.staged) := by
  unfold Desk.changes
  rw [hd, if_neg Bool.false_ne_true, hr]
  rfl

/-! ## Making a document -/

/-- Making a document whose place has a name. -/
def createAt (location : Option Location) (refused : String → Failure) (stage : Stage)
    (content : Payload) (user : String) : Flow String := do
  let id ← Process.fresh .handle
  let v ← Process.fresh .variant
  let made := Variant.make v stage content user (← Process.now)
  let made := if stage = .draft then { made with holder := some user } else made
  match ← Flow.commit [.put (.single id location made) none] with
  | .committed => return id
  | .conflict _ => throw (refused id)

/-- It takes two names, the time and the commit of what was asked for. -/
theorem run_createAt (location : Option Location) (refused : String → Failure)
    (stage : Stage) (content : Payload) (user : String) :
    (createAt location refused stage content user).run =
      .ask (.fresh .handle) fun id => .ask (.fresh .variant) fun v => .ask .now fun now =>
        .ask (.commit [.put (.single id location (.initial v stage content user now)) none]) fun
          | .ok .committed => .done (.ok id)
          | .ok (.conflict _) => .done (.error (refused id))
          | .error failure => .done (.error failure) := by
  unfold createAt
  show Process.ask (.fresh .handle) _ = _
  congr 1
  funext id
  show Process.ask (.fresh .variant) _ = _
  congr 1
  funext v
  show Process.ask .now _ = _
  congr 1
  funext now
  show Process.ask (.commit _) _ = _
  congr 1
  funext answer
  rcases answer with failure | _ | id <;> rfl

theorem run_requireText {α : Type} (what value : String) (rest : Flow α) :
    (do requireText what value; rest : Flow α).run =
      if Text.allBlank value = true then .done (.error (.argument (.blank what)))
      else rest.run := by
  unfold requireText
  by_cases h : Text.allBlank value = true
  · rw [if_pos h, if_pos h]
    rfl
  · rw [if_neg h, if_neg h]
    rfl

/-- Making a document fails at once, or it is making one in its place. -/
theorem run_create_cases (location : Option Location) (stage : Stage) (content : Payload)
    (user : String) :
    (∃ fault, (create location stage content user).run = .done (.error (.argument fault))) ∨
      (∀ l, location = some l → l.IsNamed) ∧
        ∃ refused : String → StateFault, (create location stage content user).run =
          (createAt location (fun id => .state (refused id)) stage content user).run := by
  cases location with
  | none => exact Or.inr ⟨fun _ => nofun, .handleExists, rfl⟩
  | some l =>
      have hcreate : (create (some l) stage content user).run =
          (do
            requireText "container" l.container
            requireText "name" l.name
            createAt (some l) (fun _ => .state (.locationTaken l)) stage content user :
              Flow String).run := rfl
      rw [hcreate, run_requireText, run_requireText]
      cases hcontainer : Text.allBlank l.container with
      | true => exact Or.inl ⟨_, rfl⟩
      | false =>
          cases hname : Text.allBlank l.name with
          | true => exact Or.inl ⟨_, rfl⟩
          | false =>
              refine Or.inr ⟨fun l' hl => ?_, fun _ => .locationTaken l, rfl⟩
              cases hl
              exact ⟨hcontainer, hname⟩

end Desk

end Editorial
