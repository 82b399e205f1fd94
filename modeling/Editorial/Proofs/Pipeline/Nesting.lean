import Editorial.Proofs.Pipeline.Failing
import Editorial.Proofs.Pipeline.Outcome
import Mathlib.Logic.Function.Iterate

/-!
# How deep operations fire one another

Firing an operation runs tasks, a task may fire another operation, and nothing in the code
says that this comes to an end: which operation that is depends on the table and on the
requests of the record, so no argument gets smaller. `Table.fireWithin` therefore stops at a
depth. Here it is shown that the standard table never gets there.

One level of firing is `Table.fireBy`, where the firing of nested operations is a parameter.
Firing to a depth is that level iterated, and what lies below the last level is left open
(`deeper`): a firing that comes out the same whatever `deeper` is has not reached it. What
ends the nesting is read off the table. Each task says which operations it may fire
(`Task.fires`), and if these always have a lower rank than the operation of the rule, firing
goes no deeper than the rank (`iterate_fireBy_eq`).

The guards ask for one another in the same way: whether a request can be accepted depends on
the guard of the operation that carries it out. They are iterated alike.

## Main results

* `Task.run_congr` — a task fires nothing but the operations it names.
* `iterate_fireBy_eq` — in a table with ranks the depth does not count.
* `firing_ends` — the standard table fires one level deep.
-/

namespace Editorial

/-! ## The guards -/

namespace Handle

/-- Whether a request could be carried out, where `allowed` are the guards of operations. -/
def canCarryOutBy (allowed : Handle → Operation → Bool) (h : Handle) (q : Request) : Bool :=
  match Operation.resolving? q.kind with
  | none => false
  | some op => allowed (h.withRecord (h.record.dropRequest q.id)) op

/-- The guard of an operation, where `allowed` are the guards that it asks for. -/
def allowsBy (allowed : Handle → Operation → Bool) (h : Handle) : Operation → Bool
  | .acceptRequest =>
      h.record.variants.any &&
        h.record.pending?.any fun q => !q.kind.isScheduled && canCarryOutBy allowed h q
  | .runScheduled =>
      h.record.variants.any &&
        h.record.pending?.any fun q => q.kind.isScheduled && canCarryOutBy allowed h q
  | op => h.allows op

/-- The guards ask for the guards of operations that carry requests out. -/
theorem canCarryOutBy_allows (h : Handle) (q : Request) :
    canCarryOutBy allows h q = h.canCarryOut q := by
  rw [Bool.eq_iff_iff, canCarryOut_iff, canCarryOutBy]
  cases Operation.resolving? q.kind with
  | none => simp
  | some op => simp [withRecord]

/-- The guards are a solution of the equations that they satisfy together. -/
theorem allowsBy_allows (h : Handle) (op : Operation) : allowsBy allows h op = h.allows op := by
  cases op with
  | acceptRequest | runScheduled => simp only [allowsBy, canCarryOutBy_allows, allows]
  | _ => rfl

/-- The guard of an operation that carries requests out asks for no other one. -/
theorem allowsBy_of_resolving {kind : RequestKind} {op : Operation}
    (hop : Operation.resolving? kind = some op) (allowed : Handle → Operation → Bool)
    (h : Handle) : allowsBy allowed h op = h.allows op := by
  cases kind <;> cases hop <;> rfl

/-- Two guards that agree on the operations that carry requests out are asked alike. -/
theorem allowsBy_congr {allowed allowed' : Handle → Operation → Bool}
    (hsame : ∀ kind op, Operation.resolving? kind = some op → ∀ h, allowed h op = allowed' h op)
    (h : Handle) (op : Operation) : allowsBy allowed h op = allowsBy allowed' h op := by
  have hcarry : ∀ q, canCarryOutBy allowed h q = canCarryOutBy allowed' h q := by
    intro q
    unfold canCarryOutBy
    cases hop : Operation.resolving? q.kind with
    | none => rfl
    | some op => exact hsame q.kind op hop _
  cases op with
  | acceptRequest | runScheduled => simp only [allowsBy, hcarry]
  | _ => rfl

/-- From the second level on it does not matter which guards would be asked for. -/
theorem iterate_allowsBy (deeper : Handle → Operation → Bool) (depth : Nat) (h : Handle)
    (op : Operation) : allowsBy^[depth + 2] deeper h op = h.allows op := by
  rw [Function.iterate_succ_apply', ← allowsBy_allows h op]
  refine allowsBy_congr (fun kind next hnext h' => ?_) h op
  rw [Function.iterate_succ_apply', allowsBy_of_resolving hnext]

end Handle

/-! ## What a task fires -/

/-- Requests are carried out by publishing, by taking offline and by deleting. -/
theorem Operation.mem_of_resolving {kind : RequestKind} {op : Operation}
    (hop : resolving? kind = some op) : op ∈ [publish, depublish, delete] := by
  cases kind <;> cases hop <;> decide

namespace Act

variable {α β : Type} {P : α → Prop} {Q : β → Prop}

/-- Whatever the act answers with is as `P` says. -/
def Gives (P : α → Prop) (a : Act α) : Prop :=
  ∀ w path x w', (a.on w).Leads path (some (.ok x, w')) → P x

theorem gives_pure {x : α} (hx : P x) : (pure x : Act α).Gives P := by
  intro w path y w' hl
  cases ((Process.leads_done _ _ _).1 hl).2
  exact hx

theorem gives_throw (failure : Failure) : (throw failure : Act α).Gives P := by
  intro w path x w' hl
  cases ((Process.leads_done _ _ _).1 hl).2

/-- What comes last gives the answer. -/
theorem Gives.bind {a : Act α} {f : α → Act β} (hf : ∀ x, (f x).Gives Q) : (a >>= f).Gives Q := by
  intro w path y w' hl
  rw [on_bind, Process.leads_bind_some] at hl
  obtain ⟨first, second, ⟨result, middle⟩, -, -, hlast⟩ := hl
  cases result with
  | error failure => cases ((Process.leads_done _ _ _).1 hlast).2
  | ok x => exact hf x middle second y w' hlast

end Act

namespace Task

open Act

/-- The operations that a task may fire. -/
def fires : Task → List Operation
  | acceptRequest | runScheduled => [.publish, .depublish, .delete]
  | Task.fire op => [op]
  | _ => []

section

variable {ctx : Context} {fire fire' : Operation → Act Unit}

theorem carryOut_congr (hsame : ∀ op ∈ [.publish, .depublish, .delete], fire op = fire' op)
    (q : Request) : carryOut fire q = carryOut fire' q := by
  unfold carryOut
  cases hop : Operation.resolving? q.kind with
  | none => rfl
  | some op =>
      have hfire : fire op = fire' op := hsame op (Operation.mem_of_resolving hop)
      simp only [hfire]

/-- A task fires nothing but the operations it names. -/
theorem run_congr {task : Task} (hsame : ∀ op ∈ task.fires, fire op = fire' op) :
    run ctx fire task = run ctx fire' task := by
  cases task with
  | acceptRequest =>
      have hcarry := funext (carryOut_congr hsame)
      simp only [run, runAcceptRequest, hcarry]
  | runScheduled =>
      have hcarry := funext (carryOut_congr hsame)
      simp only [run, runScheduledRequest, hcarry]
  | fire op => exact hsame op (List.mem_singleton_self op)
  | _ => rfl

end

/-- What is fired for a request is one of the operations that carry requests out. -/
theorem gives_takeOff (q : Request) :
    (some <$> takeOff q).Gives fun next? => ∀ next ∈ next?,
      next ∈ [.publish, .depublish, .delete] := by
  rw [map_eq_pure_bind, takeOff]
  cases hop : Operation.resolving? q.kind with
  | none => exact fun w path x w' hl => nomatch ((Process.leads_done _ _ _).1 hl).2
  | some op =>
      rw [bind_assoc]
      refine Gives.bind fun _ => gives_pure fun next hnext => ?_
      cases hnext
      exact Operation.mem_of_resolving hop

/-- Whatever a task fires on its way is among the operations it names. -/
theorem gives_own (ctx : Context) (task : Task) :
    (own ctx task).Gives fun next? => ∀ next ∈ next?, next ∈ task.fires := by
  cases task with
  | acceptRequest =>
      refine Gives.bind fun q => ?_
      cases if q.isDeferred ctx.arguments.now then scheduledKind? q.kind else none with
      | none => exact gives_takeOff q
      | some kind => exact Gives.bind fun _ => gives_pure nofun
  | runScheduled =>
      refine Gives.bind fun h => ?_
      cases h.record.pending?.filter fun q => q.kind.isScheduled with
      | none => exact gives_throw _
      | some q =>
          dsimp only
          split
          · exact Gives.bind fun _ => gives_takeOff q
          · exact gives_takeOff q
  | fire op => exact gives_pure fun next hnext => by cases hnext; exact List.mem_singleton_self op
  | _ => exact Gives.bind fun _ => gives_pure nofun

end Task

namespace Table

open Act Process

/-! ## Level by level -/

variable {table : Table} {ctx : Context} {op : Operation}

/-- Fires an operation on the work in hand, where `nested` fires those that it fires in
turn. -/
def fireBy (table : Table) (ctx : Context) (nested : Operation → Act Unit) (op : Operation) :
    Act Unit := do
  let h ← Act.handle
  if !(Hints.ofHandle h).allows op ctx.arguments.request then throw (.denied op)
  match table.rule? op h.record.status with
  | none => throw (.state (.noRule op h.record.status))
  | some rule => runTasks (Task.run ctx nested) op rule.tasks

/-- Firing to a depth is one level after another, below which the process breaks off. -/
theorem fireWithin_eq_iterate (table : Table) (ctx : Context) (depth : Nat) :
    table.fireWithin ctx depth =
      (table.fireBy ctx)^[depth] fun _ => monadLift (Process.broken : Process Unit) := by
  induction depth with
  | zero => rfl
  | succ depth ih =>
      rw [Function.iterate_succ_apply', ← ih]
      rfl

theorem rule?_eq_some {s : Status} {rule : Rule} (hrule : table.rule? op s = some rule) :
    rule ∈ table.rules ∧ rule.operation = op := by
  have happlies := List.find?_some hrule
  simp only [Rule.applies, Bool.and_eq_true, decide_eq_true_eq] at happlies
  exact ⟨List.mem_of_find?_eq_some hrule, happlies.1⟩

theorem runTasks_congr {run run' : Task → Act Unit} {tasks : List Task}
    (hsame : ∀ task ∈ tasks, run task = run' task) (op : Operation) :
    runTasks run op tasks = runTasks run' op tasks := by
  induction tasks with
  | nil => rfl
  | cons task rest ih =>
      have hrest := ih fun other hm => hsame other (List.mem_cons_of_mem _ hm)
      rw [runTasks, runTasks, hsame task (List.mem_cons_self ..), hrest]

/-! ## Tables with ranks -/

/-- The operations that an operation may fire have lower ranks. -/
def IsRanked (table : Table) (rank : Operation → Nat) : Prop :=
  ∀ rule ∈ table.rules, ∀ task ∈ rule.tasks, ∀ next ∈ task.fires, rank next < rank rule.operation

/-- Of nested operations only those of lower ranks count. -/
theorem fireBy_congr {rank : Operation → Nat} (htable : table.IsRanked rank)
    {nested nested' : Operation → Act Unit}
    (hsame : ∀ next, rank next < rank op → nested next = nested' next) :
    table.fireBy ctx nested op = table.fireBy ctx nested' op := by
  unfold fireBy
  refine bind_congr fun h => ?_
  cases hrule : table.rule? op h.record.status with
  | none => rfl
  | some rule =>
      obtain ⟨hm, hop⟩ := rule?_eq_some hrule
      have htasks : ∀ task ∈ rule.tasks, Task.run ctx nested task = Task.run ctx nested' task :=
        fun task htask => Task.run_congr fun next hnext =>
          hsame next (hop ▸ htable rule hm task htask next hnext)
      dsimp only
      rw [runTasks_congr htasks]

/-- Neither the depth nor what is below it counts once the depth is above the rank. -/
theorem iterate_fireBy_eq {rank : Operation → Nat} (htable : table.IsRanked rank)
    (deeper deeper' : Operation → Act Unit) {depth depth' : Nat} (hdepth : rank op < depth)
    (hdepth' : rank op < depth') :
    (table.fireBy ctx)^[depth] deeper op = (table.fireBy ctx)^[depth'] deeper' op := by
  induction depth generalizing depth' op with
  | zero => omega
  | succ depth ih =>
      obtain ⟨below, rfl⟩ : ∃ below, depth' = below + 1 := ⟨depth' - 1, by omega⟩
      rw [Function.iterate_succ_apply', Function.iterate_succ_apply']
      exact fireBy_congr htable fun next hnext => ih (by omega) (by omega)

/-! ## The standard table -/

/-- The operations that may fire another one. -/
def firingRank : Operation → Nat
  | .acceptRequest | .runScheduled => 1
  | _ => 0

theorem isRanked_standard : standard.IsRanked firingRank := by
  unfold IsRanked
  decide

theorem firingRank_le_one (op : Operation) : firingRank op ≤ 1 := by cases op <;> decide

/-- How an operation is fired with the standard table. -/
structure FiresOneLevel (ctx : Context) : Prop where
  /-- What would be fired below the first nested level does not count. -/
  nested : ∀ op deeper depth,
    (standard.fireBy ctx)^[depth + 2] deeper op = standard.fire ctx op
  /-- Only accepting a request and running a scheduled one fire anything. -/
  plain : ∀ op, op ≠ .acceptRequest → op ≠ .runScheduled → ∀ deeper depth,
    (standard.fireBy ctx)^[depth + 1] deeper op = standard.fire ctx op
  /-- A task does what it does itself and then fires what that names, if anything. In a task
  of the table that is an operation that carries requests out. -/
  fired : ∀ rule ∈ standard.rules, ∀ task ∈ rule.tasks,
    (∀ fire, Task.run ctx fire task = (do Task.firing fire (← Task.own ctx task))) ∧
      ∀ w path next w', ((Task.own ctx task).on w).Leads path (some (.ok (some next), w')) →
        (rule.operation = .acceptRequest ∨ rule.operation = .runScheduled) ∧
          (next = .publish ∨ next = .depublish ∨ next = .delete)
  /-- So firing is the only solution of the equation that says what one level does. -/
  unique : ∀ fire : Operation → Act Unit,
    fire = standard.fireBy ctx fire ↔ fire = standard.fire ctx
  /-- It comes to an end, unless there is no time left for a version. -/
  ends : ∀ op h path, ((standard.fire ctx op).on ⟨h, {}⟩).Leads path none →
    op = .version ∧ ∃ last, h.record.history.getLast? = some last ∧
      last.timestamp.nextMicrosecond? = none
  /-- The guards ask for one another one level deep. -/
  guards : ∀ (deeper : Handle → Operation → Bool) depth h op,
    Handle.allowsBy^[depth + 2] deeper h op = h.allows op

theorem iterate_fireBy_standard (deeper : Operation → Act Unit) {depth : Nat}
    (hdepth : firingRank op < depth) :
    (standard.fireBy ctx)^[depth] deeper op = standard.fire ctx op := by
  have hlimit : firingRank op < depthLimit := Nat.lt_of_le_of_lt (firingRank_le_one op) (by decide)
  rw [fire, fireWithin_eq_iterate]
  exact iterate_fireBy_eq isRanked_standard deeper _ hdepth hlimit

/-- The tasks of the standard table that may fire anything carry requests out. -/
theorem fires_standard : ∀ rule ∈ standard.rules, ∀ task ∈ rule.tasks, ∀ next ∈ task.fires,
    (rule.operation = .acceptRequest ∨ rule.operation = .runScheduled) ∧
      (next = .publish ∨ next = .depublish ∨ next = .delete) := by
  decide

/-- Whatever the handle, the arguments and the collaborators: firing goes one level deep, to
an operation that carries requests out and fires nothing. -/
theorem firing_ends (ctx : Context) : FiresOneLevel ctx := by
  have hnested : ∀ op deeper depth,
      (standard.fireBy ctx)^[depth + 2] deeper op = standard.fire ctx op :=
    fun op deeper depth => iterate_fireBy_standard deeper <| by
      have hrank := firingRank_le_one op
      omega
  refine ⟨hnested, fun op haccept hrun deeper depth => iterate_fireBy_standard deeper ?_,
    fun rule hrule task htask => ⟨fun fire => Task.run_eq ctx fire task, ?_⟩, fun fire => ?_,
    fun op h path => overflow_of_leads_fire, Handle.iterate_allowsBy⟩
  · have hrank : firingRank op = 0 := by cases op <;> first | rfl | contradiction
    omega
  · intro w path next w' hl
    exact fires_standard rule hrule task htask next (Task.gives_own ctx task w path _ w' hl next rfl)
  · constructor
    · intro hfire
      have hiterate : (standard.fireBy ctx)^[2] fire = fire := by
        rw [Function.iterate_succ_apply', Function.iterate_succ_apply', Function.iterate_zero_apply,
          ← hfire, ← hfire]
      rw [← hiterate]
      exact funext fun op => hnested op fire 0
    · rintro rfl
      funext op
      rw [← hnested op (standard.fire ctx) 1, Function.iterate_succ_apply']
      exact congrFun (congrArg _ (funext fun next => hnested next _ 0)) op

end Table

end Editorial
