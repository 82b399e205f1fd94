import Editorial.Proofs.Pipeline.Act
import Editorial.Proofs.Record.Sound

/-!
# What any pipeline keeps to

Tables can be made of any tasks, and only the record in hand is checked before a
commit. The changes that a pipeline stages for other records are never looked
at; they are right because of the tasks that stage them. Two tasks do: one makes
a new record, the other writes a version over a variant of a record it loads.

What can be said of a transaction whatever the tasks is what no task undoes. A task
adds to the staged changes and the records that were made, and notes a result, a
request or the removal of the document, but takes nothing back. An act is *careful*
with a property of records and a property of transactions that is kept in this way if
it only reads, and ends with such a transaction if it begins with one, as long as it
loads only such records. All tasks are careful whenever the two tasks above keep the
property of records, so whatever a table does is.

## Main results

* `isCareful_fireWithin` — firing an operation of any table is careful.
-/

namespace Editorial

/-- A property that new records have and that is kept when a variant is written
over. -/
structure Record.Stageable (P : Record → Prop) : Prop where
  single : ∀ id location v, P (.single id location v)
  putOver : ∀ r stage old new, P r → r.variants.get stage = some old → new.stage = old.stage →
    P (r.putVariant stage (some new))

theorem Record.stageable_isSound : Record.Stageable Record.IsSound :=
  ⟨isSound_single, fun _ _ _ _ hs hold hnew => hs.putOver hold hnew⟩

theorem Record.stageable_true : Record.Stageable fun _ => True :=
  ⟨fun _ _ _ => trivial, fun _ _ _ _ _ _ _ => trivial⟩

/-! ## Careful acts -/

/-- The step changes nothing that is shared. -/
def Query.IsReading : Query → Prop
  | .now | .fresh _ | .load _ | .find _ | .folder _ _ => True
  | .commit _ | .pause _ | .log _ => False

/-- A record that was loaded has the property. -/
def Taken.Loads (P : Record → Prop) : Taken → Prop
  | ⟨.load _, answer⟩ => ∀ stored, answer = .ok (some stored) → P stored.record
  | _ => True

theorem Taken.loads_true (t : Taken) : t.Loads fun _ => True := by
  rcases t with ⟨query, answer⟩
  cases query <;> first | trivial | exact fun _ _ => trivial

/-- The record that a change leaves has the property. -/
def Change.Leaves (P : Record → Prop) : Change → Prop
  | .put record _ => P record
  | .delete _ _ => True

namespace Transaction

/-- Every record that is staged has the property. -/
def Stages (P : Record → Prop) (t : Transaction) : Prop :=
  ∀ change ∈ t.staged, change.Leaves P

/-- No task undoes this property of transactions, if it stages only records with `P`. -/
structure IsKept (P : Record → Prop) (T : Transaction → Prop) : Prop where
  staged : ∀ t change, T t → change.Leaves P → T { t with staged := t.staged ++ [change] }
  deletes : ∀ t, T t → T { t with deletes := true }
  result : ∀ t d, T t → T { t with result := some d }
  request : ∀ t id, T t → T { t with request := some id }
  created : ∀ t id, T t → T { t with created := t.created ++ [id] }

theorem isKept_stages (P : Record → Prop) : IsKept P (Stages P) where
  staged _ _ ht hc := List.forall_mem_append.2 ⟨ht, List.forall_mem_singleton.2 hc⟩
  deletes _ ht := ht
  result _ _ ht := ht
  request _ _ ht := ht
  created _ _ ht := ht

/-- A result that was noted is not taken back. -/
theorem isKept_result (P : Record → Prop) : IsKept P fun t => t.result.isSome = true where
  staged _ _ ht _ := ht
  deletes _ ht := ht
  result _ _ _ := rfl
  request _ _ ht := ht
  created _ _ ht := ht

/-- Nor is the request that was filed. -/
theorem isKept_request (P : Record → Prop) : IsKept P fun t => t.request.isSome = true where
  staged _ _ ht _ := ht
  deletes _ ht := ht
  result _ _ ht := ht
  request _ _ _ := rfl
  created _ _ ht := ht

end Transaction

namespace Act

variable {α β : Type} {P : Record → Prop} {T : Transaction → Prop}

/-- Where an act ends, its transaction has the property. -/
def EndsWith (T : Transaction → Prop) : Option (Except Failure α × Work) → Prop
  | some r => T r.2.transaction
  | none => True

/-- The act only reads, and it keeps the property of its transaction as long as it
loads records with the property. -/
def IsCareful (P : Record → Prop) (T : Transaction → Prop) (a : Act α) : Prop :=
  ∀ w, T w.transaction → (a.on w).Meets Query.IsReading (Taken.Loads P) (EndsWith T)

theorem isCareful_pure (x : α) : (pure x : Act α).IsCareful P T := fun _ hw => hw

theorem isCareful_throw (failure : Failure) : (throw failure : Act α).IsCareful P T :=
  fun _ hw => hw

theorem isCareful_handle : handle.IsCareful P T := fun _ hw => hw

theorem isCareful_changeRecord (f : Record → Record) : (changeRecord f).IsCareful P T :=
  fun _ hw => hw

theorem isCareful_broken : (monadLift (Process.broken : Process α) : Act α).IsCareful P T :=
  fun _ _ => trivial

theorem IsCareful.bind {a : Act α} {f : α → Act β} (ha : a.IsCareful P T)
    (hf : ∀ x, (f x).IsCareful P T) : (a >>= f).IsCareful P T := by
  intro w hw
  rw [on_bind, Process.meets_bind]
  refine (ha w hw).mono fun r? hr => ?_
  rcases r? with _ | ⟨failure | x, w'⟩
  · trivial
  · exact hr
  · exact hf x w' hr

theorem IsCareful.ite {c : Prop} [Decidable c] {a b : Act α} (ha : a.IsCareful P T)
    (hb : b.IsCareful P T) : (if c then a else b).IsCareful P T := by
  by_cases h : c
  · rw [if_pos h]
    exact ha
  · rw [if_neg h]
    exact hb

theorem IsCareful.adapt {a : Act α} (ha : a.IsCareful P T) (f : Failure → Failure) :
    IsCareful P T (ExceptT.adapt f a : Act α) := by
  intro w hw
  rw [on_adapt, Process.meets_bind]
  refine (ha w hw).mono fun r? hr => ?_
  rcases r? with _ | ⟨failure | x, w'⟩
  · trivial
  · exact hr
  · exact hr

/-! ## Single steps -/

theorem isCareful_now : (liftM Process.now : Act Instant).IsCareful P T := by
  intro w hw
  rw [on_now]
  exact ⟨trivial, fun _ _ => hw⟩

theorem isCareful_fresh (kind : NameKind) :
    (liftM (Process.fresh kind) : Act String).IsCareful P T := by
  intro w hw
  rw [on_fresh]
  exact ⟨trivial, fun _ _ => hw⟩

theorem isCareful_find (location : Location) : (ofFlow (Flow.find location)).IsCareful P T := by
  intro w hw
  rw [on_find]
  exact ⟨trivial, fun _ _ => hw⟩

theorem isCareful_folder (category container : String) :
    (ofFlow (Flow.folder category container)).IsCareful P T := by
  intro w hw
  rw [on_folder]
  exact ⟨trivial, fun _ _ => hw⟩

/-! ## Small acts -/

theorem isCareful_changeTransaction {f : Transaction → Transaction}
    (hf : ∀ t, T t → T (f t)) : (changeTransaction f).IsCareful P T :=
  fun w hw => hf w.transaction hw

theorem isCareful_setResult (hT : Transaction.IsKept P T) (d : Document) :
    (setResult d).IsCareful P T :=
  isCareful_changeTransaction fun t ht => hT.result t d ht

theorem isCareful_stage (hT : Transaction.IsKept P T) {change : Change} (hc : change.Leaves P) :
    (stage change).IsCareful P T :=
  isCareful_changeTransaction fun t ht => hT.staged t change ht hc

theorem isCareful_require (what : String) (given : Option α) :
    (require what given).IsCareful P T := by
  cases given with
  | none => exact isCareful_throw _
  | some a => exact isCareful_pure a

theorem isCareful_requireVariant (stage : Stage) : (requireVariant stage).IsCareful P T := by
  refine isCareful_handle.bind fun h => ?_
  cases h.variant? stage with
  | none => exact isCareful_throw _
  | some v => exact isCareful_pure v

theorem isCareful_newVariant (stage : Stage) (content : Payload) :
    (newVariant stage content).IsCareful P T := by
  refine isCareful_handle.bind fun h => isCareful_now.bind fun now => ?_
  exact (isCareful_fresh .variant).bind fun id => isCareful_pure _

theorem isCareful_publicationTime (stage : Stage) : (publicationTime stage).IsCareful P T :=
  (isCareful_now.bind fun _ => isCareful_pure _).ite (isCareful_pure _)

/-- What follows a load may rely on the record being sound. -/
theorem IsCareful.load {id : String} {f : Option Stored → Act β}
    (hf : ∀ stored?, (∀ stored, stored? = some stored → P stored.record) →
      (f stored?).IsCareful P T) : (ofFlow (Flow.load id) >>= f).IsCareful P T := by
  intro w hw
  rw [on_bind, on_load, Process.bind_ask]
  refine ⟨trivial, fun answer hloads => ?_⟩
  cases answer with
  | error failure => exact hw
  | ok stored? =>
      refine hf stored? (fun stored he => ?_) w hw
      exact hloads stored (congrArg Except.ok he)

end Act

namespace Task

open Act

variable {P : Record → Prop} {T : Transaction → Prop} (hP : Record.Stageable P)
  (hT : Transaction.IsKept P T) (ctx : Context) (arguments : Arguments)
  {fire : Operation → Act Unit}

/-! ## Variants -/

theorem isCareful_requireFree (stage : Stage) : (requireFree stage).IsCareful P T :=
  isCareful_handle.bind fun _ => (isCareful_throw _).ite (isCareful_pure _)

theorem isCareful_runCreateVariant (source target : Stage) :
    (runCreateVariant source target).IsCareful P T := by
  refine (isCareful_requireFree target).bind fun _ => ?_
  refine (isCareful_requireVariant source).bind fun v => ?_
  refine (isCareful_newVariant target v.content).bind fun v => ?_
  exact (isCareful_publicationTime target).bind fun _ => isCareful_changeRecord _

theorem isCareful_runChangeStage (source target : Stage) :
    (runChangeStage source target).IsCareful P T := by
  refine (isCareful_requireFree target).bind fun _ => ?_
  refine (isCareful_requireVariant source).bind fun v => ?_
  refine (isCareful_changeRecord _).bind fun _ => ?_
  exact (isCareful_publicationTime target).bind fun _ => isCareful_changeRecord _

theorem isCareful_writeInto (stage : Stage) (content : Payload) :
    (writeInto stage content).IsCareful P T := by
  refine (isCareful_requireVariant stage).bind fun v => isCareful_handle.bind fun h => ?_
  refine isCareful_now.bind fun now => ?_
  exact (isCareful_changeRecord _).bind fun _ => isCareful_pure _

theorem isCareful_runCopyContent (source target : Stage) :
    (runCopyContent source target).IsCareful P T := by
  refine (isCareful_requireVariant source).bind fun v => ?_
  exact (isCareful_writeInto target v.content).bind fun _ => isCareful_pure _

theorem isCareful_runWriteContent (stage : Stage) :
    (runWriteContent arguments stage).IsCareful P T := by
  refine (isCareful_require _ _).bind fun content => ?_
  exact (isCareful_writeInto stage content).bind fun _ => isCareful_pure _

theorem isCareful_runClaimDraft : runClaimDraft.IsCareful P T := by
  refine (isCareful_requireVariant .draft).bind fun v => ?_
  exact isCareful_handle.bind fun h => isCareful_changeRecord _

theorem isCareful_runReleaseDraft : runReleaseDraft.IsCareful P T := by
  unfold runReleaseDraft
  exact isCareful_changeRecord _

include hT in
theorem isCareful_runReturnVariant (stage : Stage) : (runReturnVariant stage).IsCareful P T := by
  refine (isCareful_requireVariant stage).bind fun v => ?_
  exact isCareful_handle.bind fun h => isCareful_setResult hT _

/-! ## Whole documents -/

theorem isCareful_requireVacant (location : Location) : (requireVacant location).IsCareful P T := by
  refine (isCareful_find location).bind fun found => ?_
  cases found with
  | none => exact isCareful_pure _
  | some existing => exact isCareful_handle.bind fun h => (isCareful_throw _).ite (isCareful_pure _)

theorem isCareful_destination : (destination ctx).IsCareful P T := by
  refine (isCareful_require _ _).bind fun container => (isCareful_require _ _).bind fun name => ?_
  refine (isCareful_folder _ _).bind fun folder => ?_
  have hrest : (do requireVacant ⟨container, name⟩; return ⟨container, name⟩ :
      Act Location).IsCareful P T :=
    (isCareful_requireVacant _).bind fun _ => isCareful_pure _
  cases folder with
  | none => exact (isCareful_throw _).bind fun _ => hrest
  | some folder => exact ((isCareful_throw _).bind fun _ => hrest).ite hrest

include hP hT in
/-- A copy is a new record with a single unpublished variant. -/
theorem isCareful_runCopyDocument : (runCopyDocument ctx).IsCareful P T := by
  refine (isCareful_destination ctx).bind fun location => isCareful_handle.bind fun h => ?_
  cases (h.variant? .unpublished).or (h.variant? .published) with
  | none => exact isCareful_throw _
  | some v =>
      refine (isCareful_fresh .handle).bind fun id => ?_
      refine (isCareful_newVariant .unpublished v.content).bind fun copied => ?_
      refine (isCareful_changeTransaction fun t ht => hT.created t id ht).bind fun _ =>
        isCareful_stage hT ?_
      exact hP.single _ _ _

theorem isCareful_runMoveDocument : (runMoveDocument ctx).IsCareful P T :=
  (isCareful_destination ctx).bind fun _ => isCareful_changeRecord _

theorem isCareful_runRenameDocument : (runRenameDocument arguments).IsCareful P T := by
  refine (isCareful_require _ _).bind fun name => isCareful_handle.bind fun h => ?_
  cases h.record.location with
  | none => exact isCareful_throw _
  | some location =>
      exact (isCareful_requireVacant _).bind fun _ => isCareful_changeRecord _

/-! ## Requests -/

include hT in
theorem isCareful_runCreateRequest (kind : RequestKind) :
    (runCreateRequest arguments kind).IsCareful P T := by
  have hrest : (do
      let user := (← handle).user
      let id ← Process.fresh .request
      let now ← Process.now
      let q : Request := ⟨id, kind, arguments.date, none, user, now⟩
      changeTransaction fun t => { t with request := some id }
      changeRecord fun r => { r with requests := r.requests ++ [q] } : Act Unit).IsCareful P T := by
    refine isCareful_handle.bind fun h => (isCareful_fresh .request).bind fun id => ?_
    refine isCareful_now.bind fun now => ?_
    refine (isCareful_changeTransaction ?_).bind fun _ => isCareful_changeRecord _
    exact fun t ht => hT.request t id ht
  unfold runCreateRequest
  cases kind.isScheduled with
  | false => exact hrest
  | true => exact (isCareful_require _ _).bind fun _ => hrest

theorem isCareful_namedRequest : (namedRequest arguments).IsCareful P T := by
  refine (isCareful_require _ _).bind fun id => isCareful_handle.bind fun h => ?_
  cases h.record.request? id with
  | none => exact isCareful_throw _
  | some q => exact isCareful_pure q

theorem isCareful_carryOut (hfire : ∀ op, (fire op).IsCareful P T) (q : Request) :
    (carryOut fire q).IsCareful P T := by
  unfold carryOut
  cases Operation.resolving? q.kind with
  | none => exact isCareful_throw _
  | some op => exact (isCareful_changeRecord _).bind fun _ => hfire op

theorem isCareful_runAcceptRequest (hfire : ∀ op, (fire op).IsCareful P T) :
    (runAcceptRequest arguments fire).IsCareful P T := by
  refine (isCareful_namedRequest arguments).bind fun q => ?_
  cases if q.isDeferred arguments.now then scheduledKind? q.kind else none with
  | none => exact isCareful_carryOut hfire q
  | some kind => exact isCareful_changeRecord _

theorem isCareful_runRejectRequest : (runRejectRequest arguments).IsCareful P T :=
  (isCareful_namedRequest arguments).bind fun _ => isCareful_changeRecord _

theorem isCareful_runCancelRequest : (runCancelRequest arguments).IsCareful P T :=
  (isCareful_namedRequest arguments).bind fun _ => isCareful_changeRecord _

theorem isCareful_runScheduledRequest (hfire : ∀ op, (fire op).IsCareful P T) :
    (runScheduledRequest arguments fire).IsCareful P T := by
  refine isCareful_handle.bind fun h => ?_
  cases h.record.pending?.filter fun q => q.kind.isScheduled with
  | none => exact isCareful_throw _
  | some q =>
      have hrest := isCareful_carryOut hfire q
      exact ((isCareful_throw _).bind fun _ => hrest).ite hrest

/-! ## Versions -/

theorem isCareful_namedSnapshot : (namedSnapshot arguments).IsCareful P T := by
  refine (isCareful_require _ _).bind fun t => isCareful_handle.bind fun h => ?_
  cases Snapshot.inForce? h.record.history t with
  | none => exact isCareful_throw _
  | some s => exact isCareful_pure s

include hT in
theorem isCareful_runTakeVersion : runTakeVersion.IsCareful P T := by
  refine (isCareful_requireVariant .unpublished).bind fun v => isCareful_now.bind fun now => ?_
  refine isCareful_handle.bind fun h => ?_
  cases snapshotTime h.record.history now with
  | none => exact isCareful_broken
  | some t => exact (isCareful_changeRecord _).bind fun _ => isCareful_setResult hT _

include hT in
theorem isCareful_runRestoreVersion : (runRestoreVersion arguments).IsCareful P T := by
  refine (isCareful_namedSnapshot arguments).bind fun s => ?_
  refine (isCareful_writeInto .unpublished s.content).bind fun v => ?_
  exact isCareful_handle.bind fun h => isCareful_setResult hT _

include hP hT in
/-- A version put into another record writes over a variant of the same stage. -/
theorem isCareful_runRestoreVersionTo : (runRestoreVersionTo arguments).IsCareful P T := by
  refine (isCareful_namedSnapshot arguments).bind fun s => ?_
  refine (isCareful_require _ _).bind fun target => isCareful_handle.bind fun h => ?_
  refine IsCareful.ite ?_ ?_
  · exact (isCareful_writeInto _ _).bind fun v => isCareful_setResult hT _
  · refine IsCareful.load fun stored? hloaded => ?_
    cases stored? with
    | none => exact isCareful_throw _
    | some stored =>
        dsimp only
        cases hv : stored.record.variants.get target.stage with
        | none => exact isCareful_throw _
        | some v =>
            refine isCareful_now.bind fun now => (isCareful_setResult hT _).bind fun _ => ?_
            exact isCareful_stage hT (hP.putOver _ _ _ _ (hloaded stored rfl) hv rfl)

include hT in
theorem isCareful_runRetrieveVersion : (runRetrieveVersion arguments).IsCareful P T := by
  refine (isCareful_namedSnapshot arguments).bind fun s => ?_
  exact isCareful_handle.bind fun h => isCareful_setResult hT _

/-! ## Running a task -/

include hP hT in
theorem isCareful_run (hfire : ∀ op, (fire op).IsCareful P T) (task : Task) :
    (Task.run ctx fire task).IsCareful P T := by
  cases task with
  | createVariant source target => exact isCareful_runCreateVariant source target
  | removeVariant stage => exact isCareful_changeRecord fun r => r.putVariant stage none
  | changeStage source target => exact isCareful_runChangeStage source target
  | copyContent source target => exact isCareful_runCopyContent source target
  | writeContent stage => exact isCareful_runWriteContent ctx.arguments stage
  | claimDraft => exact isCareful_runClaimDraft
  | releaseDraft => exact isCareful_runReleaseDraft
  | returnVariant stage => exact isCareful_runReturnVariant hT stage
  | deleteHandle => exact isCareful_changeTransaction fun t ht => hT.deletes t ht
  | copyDocument => exact isCareful_runCopyDocument hP hT ctx
  | moveDocument => exact isCareful_runMoveDocument ctx
  | renameDocument => exact isCareful_runRenameDocument ctx.arguments
  | createRequest kind => exact isCareful_runCreateRequest hT ctx.arguments kind
  | acceptRequest => exact isCareful_runAcceptRequest ctx.arguments hfire
  | rejectRequest => exact isCareful_runRejectRequest ctx.arguments
  | cancelRequest => exact isCareful_runCancelRequest ctx.arguments
  | runScheduled => exact isCareful_runScheduledRequest ctx.arguments hfire
  | takeVersion => exact isCareful_runTakeVersion hT
  | restoreVersion => exact isCareful_runRestoreVersion hT ctx.arguments
  | restoreVersionTo => exact isCareful_runRestoreVersionTo hP hT ctx.arguments
  | retrieveVersion => exact isCareful_runRetrieveVersion hT ctx.arguments
  | fail failure => exact isCareful_throw failure
  | fire op => exact hfire op

end Task

/-! ## Firing -/

namespace Table

open Act

variable {P : Record → Prop} {T : Transaction → Prop}

theorem isCareful_runTasks {run : Task → Act Unit} (hrun : ∀ task, (run task).IsCareful P T)
    (op : Operation) (tasks : List Task) : (runTasks run op tasks).IsCareful P T := by
  induction tasks with
  | nil => exact isCareful_pure ()
  | cons task rest ih => exact ((hrun task).adapt _).bind fun _ => ih

/-- Firing an operation is careful, whatever the table and however deep. -/
theorem isCareful_fireWithin (hP : Record.Stageable P) (hT : Transaction.IsKept P T)
    (table : Table) (ctx : Context) (depth : Nat) (op : Operation) :
    (table.fireWithin ctx depth op).IsCareful P T := by
  induction depth generalizing op with
  | zero => exact isCareful_broken
  | succ depth ih =>
      refine isCareful_handle.bind fun h => ?_
      cases table.rule? op h.record.status with
      | none => exact ((isCareful_throw _).bind fun _ => isCareful_throw _).ite (isCareful_throw _)
      | some rule =>
          have htasks := isCareful_runTasks (Task.isCareful_run hP hT ctx ih) op rule.tasks
          exact ((isCareful_throw _).bind fun _ => htasks).ite htasks

/-- Firing an operation on a handle only reads, and it stages records with the
property as long as it loads such records. -/
theorem meets_fire (hP : Record.Stageable P) (table : Table) (ctx : Context) (op : Operation)
    (h : Handle) :
    ((table.fire ctx op).on ⟨h, {}⟩).Meets Query.IsReading (Taken.Loads P)
      (EndsWith (Transaction.Stages P)) := by
  have hnone : (⟨h, {}⟩ : Work).transaction.Stages P := by
    intro change hm
    cases hm
  exact isCareful_fireWithin hP (Transaction.isKept_stages P) table ctx depthLimit op ⟨h, {}⟩ hnone

/-- What firing an operation on a handle takes before it ends only reads. -/
theorem isReading_of_leads_fire {table : Table} {ctx : Context} {op : Operation} {h : Handle}
    {path : List Taken} {result : Option (Except Failure Unit × Work)}
    (hl : ((table.fire ctx op).on ⟨h, {}⟩).Leads path result) :
    ∀ t ∈ path, t.query.IsReading :=
  (meets_fire Record.stageable_true table ctx op h).asks_of_mem hl fun t _ => t.loads_true

end Table

end Editorial
