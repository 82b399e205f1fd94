import Editorial.Proofs.Pipeline.Careful

/-!
# What a pipeline has noted when it is through

What a caller gets back is not what a pipeline ends with: a task notes it in the transaction
on the way. Five tasks note a document and one notes the request it files, always unless they
fail. No task takes back what was noted, so a pipeline that is through has noted something if
one such task is in it, wherever that stands.

An act *brings* a property of transactions about if its transaction has it whenever the act
does not fail, whatever it was before. It is enough that the last part of an act brings it
about, or that a part does and what follows is careful with it.

## Main results

* `Table.brings_fire` — an operation brings about what one task in each of its pipelines does.
-/

namespace Editorial

namespace Act

variable {α β : Type} {T : Transaction → Prop}

/-- Where the act ends without a failure, its transaction has the property. -/
def Brings (T : Transaction → Prop) (a : Act α) : Prop :=
  ∀ w path x w', (a.on w).Leads path (some (.ok x, w')) → T w'.transaction

theorem brings_throw (failure : Failure) : (throw failure : Act α).Brings T := by
  intro w path x w' hl
  cases ((Process.leads_done _ _ _).1 hl).2

theorem brings_broken : (monadLift (Process.broken : Process α) : Act α).Brings T := by
  intro w path x w' hl
  cases ((Process.leads_broken _ _).1 hl).2

theorem brings_changeTransaction {f : Transaction → Transaction} (hf : ∀ t, T (f t)) :
    (changeTransaction f).Brings T := by
  intro w path x w' hl
  cases ((Process.leads_done _ _ _).1 hl).2
  exact hf w.transaction

/-- A sequence that ends without a failure has gone through both of its parts. -/
theorem exists_leads_of_bind {a : Act α} {f : α → Act β} {w w' : Work} {path : List Taken} {y : β}
    (hl : ((a >>= f).on w).Leads path (some (.ok y, w'))) :
    ∃ first second x w₁, (a.on w).Leads first (some (.ok x, w₁)) ∧
      ((f x).on w₁).Leads second (some (.ok y, w')) := by
  rw [on_bind, Process.leads_bind_some] at hl
  obtain ⟨first, second, ⟨failure | x, w₁⟩, -, hfirst, hsecond⟩ := hl
  · cases ((Process.leads_done _ _ _).1 hsecond).2
  · exact ⟨first, second, x, w₁, hfirst, hsecond⟩

/-- It is enough that what comes last brings the property about. -/
theorem brings_bind {a : Act α} {f : α → Act β} (hf : ∀ x, (f x).Brings T) :
    (a >>= f).Brings T := by
  intro w path y w' hl
  obtain ⟨-, second, x, w₁, -, hsecond⟩ := exists_leads_of_bind hl
  exact hf x w₁ second y w' hsecond

/-- What was brought about stays if what follows is careful with it. -/
theorem Brings.bind {a : Act α} {f : α → Act β} (ha : a.Brings T)
    (hf : ∀ x, (f x).IsCareful (fun _ => True) T) : (a >>= f).Brings T := by
  intro w path y w' hl
  obtain ⟨first, second, x, w₁, hfirst, hsecond⟩ := exists_leads_of_bind hl
  exact (hf x w₁ (ha w first x w₁ hfirst)).post_of_leads hsecond fun t _ => t.loads_true

theorem Brings.ite {c : Prop} [Decidable c] {a b : Act α} (ha : a.Brings T) (hb : b.Brings T) :
    (if c then a else b).Brings T := by
  by_cases h : c
  · rw [if_pos h]
    exact ha
  · rw [if_neg h]
    exact hb

theorem Brings.adapt {a : Act α} (ha : a.Brings T) (f : Failure → Failure) :
    Brings T (ExceptT.adapt f a : Act α) := by
  intro w path x w' hl
  rw [on_adapt, Process.leads_map] at hl
  obtain ⟨result, hresult, hend⟩ := hl
  rcases result with _ | ⟨failure | x', w₁⟩ <;> cases hend
  exact ha w path _ _ hresult

end Act

namespace Task

open Act

/-- Whether a task notes a document to hand back. -/
def notesResult : Task → Bool
  | returnVariant _ | takeVersion | restoreVersion | restoreVersionTo | retrieveVersion => true
  | _ => false

/-- Whether a task notes a request that it files. -/
def notesRequest : Task → Bool
  | createRequest _ => true
  | _ => false

/-- There is something for the caller to get back. -/
abbrev HasResult (t : Transaction) : Prop := t.result.isSome = true

/-- A request was filed. -/
abbrev HasRequest (t : Transaction) : Prop := t.request.isSome = true

variable (ctx : Context) (fire : Operation → Act Unit)

theorem brings_setResult (d : Document) : (setResult d).Brings HasResult :=
  brings_changeTransaction fun _ => rfl

/-- A version that is taken is noted, unless the calendar is at its end. -/
theorem brings_runTakeVersion : runTakeVersion.Brings HasResult := by
  refine brings_bind fun v => brings_bind fun now => brings_bind fun h => ?_
  cases snapshotTime h.record.history now with
  | none => exact brings_broken
  | some t => exact brings_bind fun _ => brings_setResult _

/-- A version put into another document is noted before the change is staged. -/
theorem brings_runRestoreVersionTo (arguments : Arguments) :
    (runRestoreVersionTo arguments).Brings HasResult := by
  refine brings_bind fun s => brings_bind fun target => brings_bind fun h => Brings.ite ?_ ?_
  · exact brings_bind fun v => brings_setResult _
  · refine brings_bind fun stored? => ?_
    cases stored? with
    | none => exact brings_throw _
    | some stored =>
        dsimp only
        cases stored.record.variants.get target.stage with
        | none => exact brings_throw _
        | some v =>
            refine brings_bind fun now => (brings_setResult _).bind fun _ => ?_
            exact isCareful_stage (Transaction.isKept_result _) (by exact trivial)

/-- The tasks that note a document. -/
theorem brings_run_of_notesResult {task : Task} (htask : task.notesResult = true) :
    (Task.run ctx fire task).Brings HasResult := by
  cases task with
  | returnVariant stage =>
      exact brings_bind fun v => brings_bind fun h => brings_setResult _
  | takeVersion => exact brings_runTakeVersion
  | restoreVersion =>
      exact brings_bind fun s => brings_bind fun v => brings_bind fun h => brings_setResult _
  | restoreVersionTo => exact brings_runRestoreVersionTo ctx.arguments
  | retrieveVersion => exact brings_bind fun s => brings_bind fun h => brings_setResult _
  | _ => cases htask

/-- The task that notes a request. -/
theorem brings_run_of_notesRequest {task : Task} (htask : task.notesRequest = true) :
    (Task.run ctx fire task).Brings HasRequest := by
  cases task with
  | createRequest kind =>
      have hrest : ∀ user : String, (do
          let id ← Process.fresh .request
          let now ← Process.now
          let q : Request := ⟨id, kind, ctx.arguments.date, none, user, now⟩
          changeTransaction fun t => { t with request := some id }
          changeRecord fun r => { r with requests := r.requests ++ [q] } :
            Act Unit).Brings HasRequest := fun user => by
        refine brings_bind fun id => brings_bind fun now => ?_
        have hnoted :
            (changeTransaction fun t => { t with request := some id }).Brings HasRequest :=
          brings_changeTransaction fun _ => rfl
        exact hnoted.bind fun _ => isCareful_changeRecord _
      show (runCreateRequest ctx.arguments kind).Brings HasRequest
      unfold runCreateRequest
      cases kind.isScheduled with
      | false => exact brings_bind fun h => hrest h.user
      | true => exact brings_bind fun _ => brings_bind fun h => hrest h.user
  | _ => cases htask

end Task

namespace Table

open Act

variable {T : Transaction → Prop}

/-- The tasks after the one that counts keep what it brought about. -/
theorem brings_runTasks {run : Task → Act Unit} {op : Operation} {tasks : List Task} {task : Task}
    (hmem : task ∈ tasks) (hbrings : (run task).Brings T)
    (hkeeps : ∀ task, (run task).IsCareful (fun _ => True) T) :
    (runTasks run op tasks).Brings T := by
  induction tasks with
  | nil => cases hmem
  | cons first rest ih =>
      rcases List.mem_cons.1 hmem with rfl | hrest
      · exact (hbrings.adapt _).bind fun _ => isCareful_runTasks hkeeps op rest
      · exact brings_bind fun _ => ih hrest

/-- An operation brings about what one task in each of its pipelines does. -/
theorem brings_fire (hT : Transaction.IsKept (fun _ => True) T) {table : Table} (ctx : Context)
    {op : Operation} (hrules : ∀ rule ∈ table.rules, rule.operation = op →
      ∃ task ∈ rule.tasks, ∀ fire, (Task.run ctx fire task).Brings T) :
    (table.fire ctx op).Brings T := by
  have hfire : ∀ depth, (table.fireWithin ctx depth op).Brings T := by
    intro depth
    cases depth with
    | zero => exact brings_broken
    | succ depth =>
        refine brings_bind fun h => ?_
        cases hrule : table.rule? op h.record.status with
        | none => exact Brings.ite (brings_bind fun _ => brings_throw _) (brings_throw _)
        | some rule =>
            have happlies : (rule.applies op h.record.status) = true := by
              simpa using List.find?_some hrule
            have hop : rule.operation = op := by
              simpa using (Bool.and_eq_true_iff.1 happlies).1
            obtain ⟨task, hmem, hbrings⟩ := hrules rule (List.mem_of_find?_eq_some hrule) hop
            have hkeeps := Task.isCareful_run Record.stageable_true hT ctx
              (isCareful_fireWithin Record.stageable_true hT table ctx depth)
            have htasks : (runTasks (Task.run ctx (table.fireWithin ctx depth)) op
                rule.tasks).Brings T := brings_runTasks hmem (hbrings _) hkeeps
            exact Brings.ite (brings_bind fun _ => htasks) htasks
  exact hfire depthLimit

end Table

end Editorial
