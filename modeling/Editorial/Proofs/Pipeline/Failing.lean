import Editorial.Proofs.Pipeline.Fire

/-!
# How a pipeline fails

A task fails by itself, or it fires an operation that fails. In the second case the
failure has already left a pipeline when the task that fired it meets it, and it is
looked at once more, on every level on its way out. It is wrapped at most once all the
same: what leaves a pipeline belongs to the workflow, and that is left as it is.

A failure does not tell where it was raised, so firing is done once more here with a
list of *marks* beside the work: each step is marked before it is run, and a failure
where it is raised, before any pipeline has looked at it. To mark that, a task is taken
apart into what it does itself and the operation it fires then (`Task.run_eq`). Apart
from the marks nothing is added or left out (`erases_traceWithin`).

## Main results

* `Task.run_eq` — a task fires at most one operation, and last of all.
* `erases_traceWithin` — firing with marks is firing.
* `isMarked_traceWithin` — a failure is the last mark, next to the step that raised it.
* `failure_is_wrapped_once` — what a firing fails with, at any depth.
-/

namespace Editorial

/-! ## What leaves a task -/

namespace Failure

/-- A failure of the workflow leaves a task as it is. -/
theorem leaving_of_isDomain {failure : Failure} (h : failure.isDomain = true) (op : Operation)
    (task : Task) : failure.leaving op task = failure := if_pos h

theorem leaving_of_not_isDomain {failure : Failure} (h : failure.isDomain = false)
    (op : Operation) (task : Task) : failure.leaving op task = .inTask op.name task.name failure :=
  if_neg (by simp [h])

/-- A failure from outside the workflow is not that of a task. -/
theorem kind_ne_of_not_isDomain {failure : Failure} (h : failure.isDomain = false) :
    failure.kind ≠ .transitionFailed := by
  intro hkind
  unfold isDomain at h
  rw [hkind] at h
  cases h

end Failure

/-! ## What a task does itself -/

namespace Task

open Act

/-- Takes a request off the record and names the operation that carries it out. -/
def takeOff (q : Request) : Act Operation := do
  match Operation.resolving? q.kind with
  | none => throw (.state .requestRejected)
  | some op =>
      changeRecord fun r => r.dropRequest q.id
      return op

/-- What accepting a request does itself. -/
def ownAcceptRequest (arguments : Arguments) : Act (Option Operation) := do
  let q ← namedRequest arguments
  let scheduled := if q.isDeferred arguments.now then scheduledKind? q.kind else none
  match scheduled with
  | some kind =>
      changeRecord fun r => r.changeRequest q.id fun q => { q with kind := kind }
      return none
  | none => some <$> takeOff q

/-- What running a scheduled request does itself. -/
def ownScheduledRequest (arguments : Arguments) : Act (Option Operation) := do
  let h ← handle
  let some q := h.record.pending?.filter fun q => q.kind.isScheduled
    | throw (.state (.noScheduledRequest h.id))
  if !q.isDue arguments.now then throw (.state (.notDue q.kind q.id q.scheduledAt))
  some <$> takeOff q

/-- What a task does itself, and the operation that it fires then, if it fires one. -/
def own (ctx : Context) : Task → Act (Option Operation)
  | acceptRequest => ownAcceptRequest ctx.arguments
  | runScheduled => ownScheduledRequest ctx.arguments
  | Task.fire op => return some op
  | task => do
      run ctx (fun _ => return ()) task
      return none

/-- Fires the operation, if there is one. -/
def firing (fire : Operation → Act Unit) : Option Operation → Act Unit
  | none => return ()
  | some op => fire op

variable (ctx : Context) (fire : Operation → Act Unit)

theorem carryOut_eq (q : Request) : carryOut fire q = (do fire (← takeOff q)) := by
  unfold carryOut takeOff
  cases Operation.resolving? q.kind with
  | none => rfl
  | some op => simp

theorem runAcceptRequest_eq (arguments : Arguments) :
    runAcceptRequest arguments fire = (do firing fire (← ownAcceptRequest arguments)) := by
  unfold runAcceptRequest ownAcceptRequest
  simp only [bind_assoc]
  refine bind_congr fun q => ?_
  cases if q.isDeferred arguments.now then scheduledKind? q.kind else none with
  | some kind => simp [firing]
  | none => simp [carryOut_eq, firing]

theorem runScheduledRequest_eq (arguments : Arguments) :
    runScheduledRequest arguments fire = (do firing fire (← ownScheduledRequest arguments)) := by
  unfold runScheduledRequest ownScheduledRequest
  simp only [bind_assoc]
  refine bind_congr fun h => ?_
  cases h.record.pending?.filter fun q => q.kind.isScheduled with
  | none => rfl
  | some q =>
      cases hdue : q.isDue arguments.now with
      | false => simp only [hdue, Bool.not_false, if_true]; rfl
      | true => simp [hdue, carryOut_eq, firing]

/-- A task fires an operation last of all, if it fires one. -/
theorem run_eq (task : Task) : run ctx fire task = (do firing fire (← own ctx task)) := by
  cases task with
  | acceptRequest => exact runAcceptRequest_eq fire ctx.arguments
  | runScheduled => exact runScheduledRequest_eq fire ctx.arguments
  | fire op => simp [run, own, firing]
  | _ => simp [run, own, firing]

end Task

/-! ## Firing with marks -/

/-- A mark that is left while an operation is fired. -/
inductive Mark where
  /-- A step of a pipeline is run. -/
  | began (op : Operation) (task : Task)
  /-- A step has failed by itself. -/
  | raised (op : Operation) (task : Task) (failure : Failure)
  /-- An operation is not carried out at all. -/
  | refused (failure : Failure)
deriving DecidableEq

/-- What is done with the work in hand and the marks beside it. -/
abbrev Traced := ExceptT Failure (StateT (Work × List Mark) Process)

namespace Traced

variable {α β : Type}

/-- The process that it is. -/
def on (a : Traced α) (w : Work) (marks : List Mark) :
    Process (Except Failure α × (Work × List Mark)) := StateT.run (ExceptT.run a) (w, marks)

/-- Leaves a mark. -/
def mark (m : Mark) : Traced Unit := modify fun s => (s.1, s.2 ++ [m])

/-- An act, which knows nothing of marks. -/
def act (a : Act α) : Traced α := ExceptT.mk fun s => do
  let r ← a.on s.1
  return (r.1, (r.2, s.2))

/-- An act whose failure is marked where it is raised. -/
def raising (m : Failure → Mark) (a : Act α) : Traced α := ExceptT.mk fun s => do
  let r ← a.on s.1
  match r.1 with
  | .ok x => return (.ok x, (r.2, s.2))
  | .error failure => return (.error failure, (r.2, s.2 ++ [m failure]))

/-- Does not carry an operation out. -/
def refuse (failure : Failure) : Traced Unit := do
  mark (.refused failure)
  throw failure

theorem on_bind (a : Traced α) (f : α → Traced β) (w : Work) (marks : List Mark) :
    (a >>= f).on w marks = (a.on w marks).bind fun r =>
      match r.1 with
      | .ok x => (f x).on r.2.1 r.2.2
      | .error failure => .done (.error failure, r.2) := by
  show Process.bind (a (w, marks)) _ = Process.bind (a (w, marks)) _
  congr 1
  funext r
  rcases r with ⟨_ | _, _⟩ <;> rfl

@[simp] theorem on_mark (m : Mark) (w : Work) (marks : List Mark) :
    (mark m).on w marks = .done (.ok (), (w, marks ++ [m])) := rfl

theorem on_act (a : Act α) (w : Work) (marks : List Mark) :
    (act a).on w marks = (a.on w).bind fun r => .done (r.1, (r.2, marks)) := rfl

theorem on_raising (m : Failure → Mark) (a : Act α) (w : Work) (marks : List Mark) :
    (raising m a).on w marks = (a.on w).bind fun r =>
      match r.1 with
      | .ok x => .done (.ok x, (r.2, marks))
      | .error failure => .done (.error failure, (r.2, marks ++ [m failure])) := by
  show Process.bind (a.on w) _ = Process.bind (a.on w) _
  congr 1

@[simp] theorem on_refuse (failure : Failure) (w : Work) (marks : List Mark) :
    (refuse failure).on w marks = .done (.error failure, (w, marks ++ [.refused failure])) := rfl

theorem on_adapt (a : Traced α) (f : Failure → Failure) (w : Work) (marks : List Mark) :
    on (ExceptT.adapt f a : Traced α) w marks =
      (a.on w marks).bind fun r => .done (r.1.mapError f, r.2) := rfl

end Traced

namespace Table

open Process

/-- Runs the tasks of a pipeline in turn. -/
def traceTasks (ctx : Context) (fire : Operation → Traced Unit) (op : Operation) :
    List Task → Traced Unit
  | [] => return ()
  | task :: rest => do
      Traced.mark (.began op task)
      ExceptT.adapt (Failure.leaving op task) do
        match ← Traced.raising (.raised op task) (task.own ctx) with
        | none => return ()
        | some next => fire next
      traceTasks ctx fire op rest

/-- Fires an operation and leaves marks. -/
def traceWithin (table : Table) (ctx : Context) : (depth : Nat) → Operation → Traced Unit
  | 0, _ => Traced.act (monadLift (Process.broken : Process Unit))
  | depth + 1, op => do
      let h ← Traced.act Act.handle
      if !(Hints.ofHandle h).allows op ctx.arguments.request then Traced.refuse (.denied op)
      match table.rule? op h.record.status with
      | none => Traced.refuse (.state (.noRule op h.record.status))
      | some rule => traceTasks ctx (table.traceWithin ctx depth) op rule.tasks

section

variable (table : Table) (ctx : Context) (fire : Operation → Traced Unit) (op : Operation)

theorem on_traceTasks_nil (w : Work) (marks : List Mark) :
    (traceTasks ctx fire op []).on w marks = done (.ok (), (w, marks)) := rfl

/-- The rest of a pipeline is run if the task and what it fires are through. -/
theorem on_traceTasks_cons (task : Task) (rest : List Task) (w : Work) (marks : List Mark) :
    (traceTasks ctx fire op (task :: rest)).on w marks =
      ((task.own ctx).on w).bind fun r =>
        match r.1 with
        | .ok none => (traceTasks ctx fire op rest).on r.2 (marks ++ [.began op task])
        | .ok (some next) =>
            ((fire next).on r.2 (marks ++ [.began op task])).bind fun r' =>
              match r'.1 with
              | .ok () => (traceTasks ctx fire op rest).on r'.2.1 r'.2.2
              | .error failure => done (.error (failure.leaving op task), r'.2)
        | .error failure =>
            done (.error (failure.leaving op task),
              (r.2, marks ++ [.began op task] ++ [.raised op task failure])) := by
  rw [traceTasks, Traced.on_bind, Traced.on_mark, bind_done]
  simp only [Traced.on_bind, Traced.on_adapt, Traced.on_raising, bind_assoc]
  congr 1
  funext r
  rcases r with ⟨_ | _ | next, w'⟩
  · rfl
  · rfl
  · simp only [bind_done]
    congr 1
    funext r'
    rcases r' with ⟨_ | _, _⟩ <;> rfl

theorem on_traceWithin (depth : Nat) (w : Work) (marks : List Mark) :
    (table.traceWithin ctx (depth + 1) op).on w marks =
      if (Hints.ofHandle w.handle).allows op ctx.arguments.request then
        match table.rule? op w.handle.record.status with
        | none =>
            let failure := .state (.noRule op w.handle.record.status)
            done (.error failure, (w, marks ++ [.refused failure]))
        | some rule =>
            (traceTasks ctx (table.traceWithin ctx depth) op rule.tasks).on w marks
      else done (.error (.denied op), (w, marks ++ [.refused (.denied op)])) := by
  rw [traceWithin, Traced.on_bind, Traced.on_act, Act.on_handle, bind_done, bind_done]
  cases h : (Hints.ofHandle w.handle).allows op ctx.arguments.request with
  | false => simp [h, Traced.on_bind]
  | true =>
      simp only [h, Bool.not_true, Bool.false_eq_true, if_false, if_true]
      cases table.rule? op w.handle.record.status <;> rfl

end

/-! ## Without the marks -/

/-- A pipeline is what it is with marks, apart from the marks. -/
def Erases (traced : Traced Unit) (a : Act Unit) : Prop :=
  ∀ w marks, (traced.on w marks).bind (fun r => done (r.1, r.2.1)) = a.on w

theorem erases_traceTasks {ctx : Context} {traced : Operation → Traced Unit}
    {fire : Operation → Act Unit} (h : ∀ next, Erases (traced next) (fire next)) (op : Operation)
    (tasks : List Task) :
    Erases (traceTasks ctx traced op tasks) (runTasks (Task.run ctx fire) op tasks) := by
  induction tasks with
  | nil => exact fun w marks => rfl
  | cons task rest ih =>
      intro w marks
      rw [on_traceTasks_cons, on_runTasks_cons, Task.run_eq, Act.on_bind, bind_assoc, bind_assoc]
      congr 1
      funext r
      rcases r with ⟨failure | _ | next, w'⟩
      · rfl
      · exact ih w' _
      · show Process.bind _ _ = ((fire next).on w').bind _
        rw [← h next w' (marks ++ [.began op task]), bind_assoc, bind_assoc]
        congr 1
        funext r'
        rcases r' with ⟨failure | _, w'', marks''⟩
        · rfl
        · exact ih w'' marks''

/-- Firing with marks is firing. -/
theorem erases_traceWithin (table : Table) (ctx : Context) (depth : Nat) (op : Operation) :
    Erases (table.traceWithin ctx depth op) (table.fireWithin ctx depth op) := by
  induction depth generalizing op with
  | zero => exact fun w marks => rfl
  | succ depth ih =>
      intro w marks
      rw [on_traceWithin, on_fireWithin]
      split
      · cases table.rule? op w.handle.record.status with
        | none => rfl
        | some rule => exact erases_traceTasks ih op rule.tasks w marks
      · rfl

/-- A firing takes the same way with marks as without. -/
theorem exists_leads_traceWithin {table : Table} {ctx : Context} {depth : Nat} {op : Operation}
    {w w' : Work} {path : List Taken} {result : Except Failure Unit}
    (hl : ((table.fireWithin ctx depth op).on w).Leads path (some (result, w')))
    (marks : List Mark) :
    ∃ marks', ((table.traceWithin ctx depth op).on w marks).Leads path
      (some (result, (w', marks'))) := by
  rw [← erases_traceWithin table ctx depth op w marks, leads_map] at hl
  obtain ⟨_ | ⟨result', w'', marks'⟩, hl, he⟩ := hl
  · cases he
  · cases he
    exact ⟨marks', hl⟩

end Table

/-! ## What the marks say -/

namespace Mark

/-- Whether it is the mark of a step that is run. -/
def isStep : Mark → Bool
  | began _ _ => true
  | _ => false

/-- The marks of a firing that has failed: the steps that were run, one after another,
and at the end the failure, next to the step that raised it. A failure of the workflow
comes out as it was raised. Any other comes out wrapped, and it was not wrapped before. -/
inductive Fails : List Mark → Failure → Prop
  | refused {steps : List Mark} {failure : Failure} (hsteps : ∀ m ∈ steps, m.isStep = true)
      (hkind : failure.kind = .notAllowed ∨ failure.kind = .invalidState) :
      Fails (steps ++ [.refused failure]) failure
  | passed {steps : List Mark} {op : Operation} {task : Task} {failure : Failure}
      (hsteps : ∀ m ∈ steps, m.isStep = true) (hdomain : failure.isDomain = true) :
      Fails (steps ++ [.began op task, .raised op task failure]) failure
  | wrapped {steps : List Mark} {op : Operation} {task : Task} {raw : Failure}
      (hsteps : ∀ m ∈ steps, m.isStep = true) (hforeign : raw.isDomain = false)
      (honce : raw.kind ≠ .transitionFailed) :
      Fails (steps ++ [.began op task, .raised op task raw]) (.inTask op.name task.name raw)

/-- How the marks of a firing read that has ended. -/
def Reads (marks : List Mark) : Except Failure Unit → Prop
  | .ok () => ∀ m ∈ marks, m.isStep = true
  | .error failure => Fails marks failure

theorem Fails.isDomain {marks : List Mark} {failure : Failure} (h : Fails marks failure) :
    failure.isDomain = true := by
  cases h with
  | refused _ hkind =>
      unfold Failure.isDomain
      rcases hkind with hkind | hkind <;> rw [hkind]
  | passed _ hdomain => exact hdomain
  | wrapped _ _ _ => exact Failure.isDomain_inTask ..

theorem Fails.append {steps marks : List Mark} {failure : Failure}
    (hsteps : ∀ m ∈ steps, m.isStep = true) (h : Fails marks failure) :
    Fails (steps ++ marks) failure := by
  have hall : ∀ {more : List Mark}, (∀ m ∈ more, m.isStep = true) →
      ∀ m ∈ steps ++ more, m.isStep = true := fun hmore => List.forall_mem_append.2 ⟨hsteps, hmore⟩
  cases h with
  | refused h hkind =>
      rw [← List.append_assoc]
      exact .refused (hall h) hkind
  | passed h hdomain =>
      rw [← List.append_assoc]
      exact .passed (hall h) hdomain
  | wrapped h hforeign honce =>
      rw [← List.append_assoc]
      exact .wrapped (hall h) hforeign honce

theorem Reads.append {steps marks : List Mark} {result : Except Failure Unit}
    (hsteps : ∀ m ∈ steps, m.isStep = true) (h : Reads marks result) :
    Reads (steps ++ marks) result := by
  match result, h with
  | .ok (), h => exact List.forall_mem_append.2 ⟨hsteps, h⟩
  | .error failure, h => exact Fails.append hsteps h

/-- A failure that a step raises is the last of its pipeline. -/
theorem fails_raised (op : Operation) (task : Task) (raw : Failure) :
    Fails [.began op task, .raised op task raw] (raw.leaving op task) := by
  cases h : raw.isDomain with
  | true =>
      rw [Failure.leaving_of_isDomain h]
      exact @Fails.passed [] op task raw (List.forall_mem_nil _) h
  | false =>
      rw [Failure.leaving_of_not_isDomain h]
      exact @Fails.wrapped [] op task raw (List.forall_mem_nil _) h
        (Failure.kind_ne_of_not_isDomain h)

end Mark

namespace Table

open Process

/-- What is marked on any way through, after the marks that were there before, reads as
the marks of a firing that ended like this. -/
def IsMarked (traced : Traced Unit) : Prop :=
  ∀ w marks path result w' marks', (traced.on w marks).Leads path (some (result, (w', marks'))) →
    ∃ new, marks' = marks ++ new ∧ Mark.Reads new result

theorem isMarked_traceTasks {ctx : Context} {fire : Operation → Traced Unit}
    (hfire : ∀ next, IsMarked (fire next)) (op : Operation) (tasks : List Task) :
    IsMarked (traceTasks ctx fire op tasks) := by
  induction tasks with
  | nil =>
      intro w marks path result w' marks' hl
      rw [on_traceTasks_nil] at hl
      cases ((leads_done _ _ _).1 hl).2
      exact ⟨[], (List.append_nil marks).symm, List.forall_mem_nil _⟩
  | cons task rest ih =>
      intro w marks path result w' marks' hl
      have hstep : ∀ m ∈ [Mark.began op task], m.isStep = true := by simp [Mark.isStep]
      rw [on_traceTasks_cons, leads_bind_some] at hl
      obtain ⟨-, second, ⟨failure | _ | next, w₁⟩, -, -, hl⟩ := hl
      · -- the task fails by itself
        cases ((leads_done _ _ _).1 hl).2
        exact ⟨_, List.append_assoc .., Mark.fails_raised op task failure⟩
      · -- the task fires nothing
        obtain ⟨new, rfl, hnew⟩ := ih _ _ _ _ _ _ hl
        exact ⟨_, List.append_assoc .., hnew.append hstep⟩
      · obtain ⟨_, _, ⟨failure | _, w₂, marks₂⟩, -, hfired, hl⟩ := (leads_bind_some _ _ _ _).1 hl
        · -- what it fires fails: that failure has been looked at already
          obtain ⟨new, rfl, hnew⟩ := hfire next _ _ _ _ _ _ hfired
          cases ((leads_done _ _ _).1 hl).2
          refine ⟨[.began op task] ++ new, List.append_assoc .., ?_⟩
          rw [Failure.leaving_of_isDomain (Mark.Fails.isDomain hnew)]
          exact hnew.append hstep
        · obtain ⟨new, rfl, hnew⟩ := hfire next _ _ _ _ _ _ hfired
          obtain ⟨rest', rfl, hrest⟩ := ih _ _ _ _ _ _ hl
          exact ⟨[.began op task] ++ (new ++ rest'), by simp, (hrest.append hnew).append hstep⟩

theorem isMarked_traceWithin (table : Table) (ctx : Context) (depth : Nat) (op : Operation) :
    IsMarked (table.traceWithin ctx depth op) := by
  induction depth generalizing op with
  | zero =>
      intro w marks path result w' marks' hl
      cases ((leads_broken _ _).1 hl).2
  | succ depth ih =>
      intro w marks path result w' marks' hl
      rw [on_traceWithin] at hl
      split at hl
      · split at hl
        · cases ((leads_done _ _ _).1 hl).2
          exact ⟨_, rfl, @Mark.Fails.refused [] _ (List.forall_mem_nil _) (.inr rfl)⟩
        · exact isMarked_traceTasks ih _ _ _ _ _ _ _ _ hl
      · cases ((leads_done _ _ _).1 hl).2
        exact ⟨_, rfl, @Mark.Fails.refused [] _ (List.forall_mem_nil _) (.inl rfl)⟩

/-- A firing fails with a failure of the workflow. It comes out as it was raised, or it is
the failure of the step that raised it and tells why that failed; and after that step no
other is run in any of the pipelines around it. -/
theorem failure_is_wrapped_once (table : Table) (ctx : Context) (depth : Nat) (op : Operation)
    {w w' : Work} {path : List Taken} {failure : Failure}
    (hl : ((table.fireWithin ctx depth op).on w).Leads path (some (.error failure, w'))) :
    failure.isDomain = true ∧
      ∃ marks, ((table.traceWithin ctx depth op).on w []).Leads path
          (some (.error failure, (w', marks))) ∧
        Mark.Fails marks failure := by
  obtain ⟨marks, hl⟩ := exists_leads_traceWithin hl []
  obtain ⟨new, rfl, hnew⟩ := isMarked_traceWithin table ctx depth op _ _ _ _ _ _ hl
  exact ⟨Mark.Fails.isDomain hnew, _, hl, hnew⟩

/-- A table in which taking a version lists the versions first, and listing them fails. -/
def listingFails : Table where
  rules := Rule.covering
    [⟨.version, .any, [.fire .listVersions, .takeVersion]⟩,
     ⟨.listVersions, .any, [.fail (.reported .contentStore "disk full"), .takeVersion]⟩]
  distinct := by decide
  covered := by decide

/-- The store fails in an operation that is fired by another one. -/
theorem failure_is_wrapped_once_nested :
    let ctx : Context := ⟨{ now := .epoch }, "folders"⟩
    let w : Work := ⟨⟨.single "d" none (.make "v" .unpublished .null "ann" .epoch), 1, "ann"⟩, {}⟩
    let failure : Failure := .inTask "listVersions" "fail" (.reported .contentStore "disk full")
    ((listingFails.fireWithin ctx depthLimit .version).on w).Leads []
        (some (.error failure, w)) ∧
      failure.isDomain = true ∧
      ∃ marks, ((listingFails.traceWithin ctx depthLimit .version).on w []).Leads []
          (some (.error failure, (w, marks))) ∧
        Mark.Fails marks failure := by
  intro ctx w failure
  have hl : ((listingFails.fireWithin ctx depthLimit .version).on w).Leads []
      (some (.error failure, w)) := by
    have hversion : (Hints.ofHandle w.handle).allows .version none = true := by decide +kernel
    have hlist : (Hints.ofHandle w.handle).allows .listVersions none = true := by decide +kernel
    rw [show depthLimit = 998 + 1 + 1 from rfl, on_fireWithin, if_pos hversion]
    show ((runTasks _ .version [.fire .listVersions, .takeVersion]).on w).Leads _ _
    rw [on_runTasks_cons]
    show (((listingFails.fireWithin ctx (998 + 1) .listVersions).on w).bind _).Leads _ _
    rw [on_fireWithin, if_pos hlist]
    rfl
  exact ⟨hl, failure_is_wrapped_once _ _ _ _ hl⟩

end Table

end Editorial
