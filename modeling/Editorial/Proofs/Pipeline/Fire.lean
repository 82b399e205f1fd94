import Editorial.Proofs.Pipeline.Task

/-!
# What the standard table does

Firing is a lookup in the hints, a lookup in the table, and the tasks of the
rule in turn. For the standard table this comes to one equation for each
operation and each rule that can be met: once the hints allow the operation and
the variants are known, the process it is can be written down.

An operation whose only rule has a single task is that task
(`on_standard_single`), so those that look for a destination, a request or a
snapshot need no equation of their own.
-/

namespace Editorial

/-- The kind of request that an operation files. -/
def Operation.filed? : Operation → Option RequestKind
  | .schedulePublish => some .scheduledPublication
  | .scheduleDepublish => some .scheduledDepublication
  | .requestPublication => some .publication
  | .requestDepublication => some .depublication
  | .requestDeletion => some .deletion
  | _ => none

namespace Table

open Act Process

/-! ## Firing step by step -/

section

variable (table : Table) (ctx : Context)

theorem on_fireWithin (depth : Nat) (op : Operation) (w : Work) :
    (table.fireWithin ctx (depth + 1) op).on w =
      if (Hints.ofHandle w.handle).allows op ctx.arguments.request then
        match table.rule? op w.handle.record.status with
        | none => done (.error (.state (.noRule op w.handle.record.status)), w)
        | some rule =>
            (runTasks (Task.run ctx (table.fireWithin ctx depth)) op rule.tasks).on w
      else done (.error (.denied op), w) := by
  rw [fireWithin, on_bind, on_handle, bind_done]
  cases h : (Hints.ofHandle w.handle).allows op ctx.arguments.request with
  | false => simp [h]
  | true =>
      simp only [h, Bool.not_true, Bool.false_eq_true, if_false, if_true]
      cases table.rule? op w.handle.record.status <;> rfl

variable (run : Task → Act Unit) (op : Operation)

theorem on_runTasks_nil (w : Work) : (runTasks run op []).on w = done (.ok (), w) := rfl

theorem on_runTasks_cons (task : Task) (rest : List Task) (w : Work) :
    (runTasks run op (task :: rest)).on w =
      ((run task).on w).bind fun r =>
        match r.1 with
        | .ok () => (runTasks run op rest).on r.2
        | .error failure => done (.error (failure.leaving op task), r.2) := by
  rw [runTasks, on_bind, on_adapt, bind_assoc]
  congr 1
  funext r
  rcases r with ⟨_ | _, _⟩ <;> rfl

theorem on_runTasks_single (task : Task) (w : Work) :
    (runTasks run op [task]).on w =
      ((run task).on w).bind fun r => done (r.1.mapError (Failure.leaving op task), r.2) := by
  rw [on_runTasks_cons]
  congr 1
  funext r
  rcases r with ⟨_ | _, _⟩ <;> rfl

end

/-! ## The rules that are met -/

section

variable {ctx : Context} {depth : Nat} {op : Operation} {h : Handle}

/-- Of the status only the variants count for a rule. -/
theorem rule?_status (op : Operation) (h : Handle) :
    standard.rule? op h.record.status =
      standard.rule? op ⟨(h.variant? .draft).isSome, (h.variant? .unpublished).isSome,
        (h.variant? .published).isSome, none⟩ := rfl

theorem on_standard {rule : Rule}
    (ha : (Hints.ofHandle h).allows op ctx.arguments.request = true)
    (hr : standard.rule? op h.record.status = some rule) :
    (standard.fireWithin ctx (depth + 1) op).on ⟨h, {}⟩ =
      (runTasks (Task.run ctx (standard.fireWithin ctx depth)) op rule.tasks).on ⟨h, {}⟩ := by
  rw [on_fireWithin, ha, if_pos rfl, hr]

/-- An operation whose only rule has a single task does what the task does. -/
theorem on_standard_single {pattern : Pattern} {task : Task}
    (ha : (Hints.ofHandle h).allows op ctx.arguments.request = true)
    (hr : standard.rule? op h.record.status = some ⟨op, pattern, [task]⟩) :
    (standard.fireWithin ctx (depth + 1) op).on ⟨h, {}⟩ =
      ((Task.run ctx (standard.fireWithin ctx depth) task).on ⟨h, {}⟩).bind fun r =>
        done (r.1.mapError (Failure.leaving op task), r.2) := by
  rw [on_standard ha hr, on_runTasks_single]

theorem leads_standard_single {pattern : Pattern} {task : Task} {path : List Taken} {w : Work}
    (ha : (Hints.ofHandle h).allows op ctx.arguments.request = true)
    (hr : standard.rule? op h.record.status = some ⟨op, pattern, [task]⟩) :
    ((standard.fireWithin ctx (depth + 1) op).on ⟨h, {}⟩).Leads path (some (.ok (), w)) ↔
      ((Task.run ctx (standard.fireWithin ctx depth) task).on ⟨h, {}⟩).Leads path
        (some (.ok (), w)) := by
  rw [on_standard_single ha hr, leads_map]
  constructor
  · rintro ⟨_ | ⟨_ | _, _⟩, hl, he⟩ <;> cases he
    exact hl
  · intro hl
    exact ⟨_, hl, rfl⟩

/-- The operations on versions that need an unpublished variant have one rule each. -/
theorem rule_of_unpublished (task : Task) {u : Variant}
    (hop : (op, task) ∈ [(Operation.version, Task.takeVersion),
      (.restoreVersion, .restoreVersion), (.restoreVersionTo, .restoreVersionTo)])
    (hu : h.variant? .unpublished = some u) :
    standard.rule? op h.record.status = some ⟨op, { unpublished := .present }, [task]⟩ := by
  rw [rule?_status, hu]
  simp only [List.mem_cons, Prod.mk.injEq, List.not_mem_nil, or_false] at hop
  rcases hop with ⟨rfl, rfl⟩ | ⟨rfl, rfl⟩ | ⟨rfl, rfl⟩ <;>
    cases (h.variant? .draft).isSome <;> cases (h.variant? .published).isSome <;> rfl

/-! ## Editing -/

theorem on_obtain_held {d : Variant}
    (ha : (Hints.ofHandle h).allows .obtain ctx.arguments.request = true)
    (hd : h.variant? .draft = some d) :
    (standard.fireWithin ctx (depth + 1) .obtain).on ⟨h, {}⟩ =
      done (.ok (), ⟨h.withRecord (h.record.putVariant .draft (some (d.heldBy h.user))),
        { result := some (.ofVariant h.id (d.heldBy h.user)) }⟩) := by
  have hr : standard.rule? .obtain h.record.status =
      some ⟨.obtain, { draft := .present }, [.claimDraft, .returnVariant .draft]⟩ := by
    rw [rule?_status, hd]
    rfl
  rw [on_standard ha hr]
  simp [on_runTasks_cons, on_runTasks_nil, Task.run, Task.on_runClaimDraft,
    Task.on_runReturnVariant, hd]
  rfl

theorem on_obtain_unpublished {u : Variant}
    (ha : (Hints.ofHandle h).allows .obtain ctx.arguments.request = true)
    (hd : h.variant? .draft = none) (hu : h.variant? .unpublished = some u) :
    (standard.fireWithin ctx (depth + 1) .obtain).on ⟨h, {}⟩ =
      ask .now fun t => ask (.fresh .variant) fun name =>
        let d : Variant := .entering .draft name u.content h.user t none
        done (.ok (), ⟨h.withRecord (h.record.putVariant .draft (some d)),
          { result := some (.ofVariant h.id d) }⟩) := by
  have hr : standard.rule? .obtain h.record.status =
      some ⟨.obtain, { draft := .absent, unpublished := .present },
        [.createVariant .unpublished .draft, .returnVariant .draft]⟩ := by
    rw [rule?_status, hd, hu]
    rfl
  rw [on_standard ha hr]
  simp [on_runTasks_cons, on_runTasks_nil, Task.run, Task.on_runCreateVariant,
    Task.on_runReturnVariant, Handle.has_eq, hd, hu]
  rfl

theorem on_obtain_published {p : Variant}
    (ha : (Hints.ofHandle h).allows .obtain ctx.arguments.request = true)
    (hd : h.variant? .draft = none) (hu : h.variant? .unpublished = none)
    (hp : h.variant? .published = some p) :
    (standard.fireWithin ctx (depth + 1) .obtain).on ⟨h, {}⟩ =
      ask .now fun t => ask (.fresh .variant) fun name =>
        ask .now fun t' => ask (.fresh .variant) fun name' =>
          let u : Variant := .entering .unpublished name p.content h.user t none
          let d : Variant := .entering .draft name' p.content h.user t' none
          done (.ok (),
            ⟨h.withRecord
              ((h.record.putVariant .unpublished (some u)).putVariant .draft (some d)),
              { result := some (.ofVariant h.id d) }⟩) := by
  have hr : standard.rule? .obtain h.record.status =
      some ⟨.obtain, { draft := .absent, unpublished := .absent, published := .present },
        [.createVariant .published .unpublished, .createVariant .unpublished .draft,
         .returnVariant .draft]⟩ := by
    rw [rule?_status, hd, hu, hp]
    rfl
  have hd' : h.record.variants.get .draft = none := hd
  rw [on_standard ha hr]
  simp [on_runTasks_cons, on_runTasks_nil, Task.run, Task.on_runCreateVariant,
    Task.on_runReturnVariant, Handle.has_eq, hd', hu, hp]
  rfl

theorem on_commit_alone {d : Variant}
    (ha : (Hints.ofHandle h).allows .commit ctx.arguments.request = true)
    (hd : h.variant? .draft = some d) (hu : h.variant? .unpublished = none)
    (hp : h.variant? .published = none) :
    (standard.fireWithin ctx (depth + 1) .commit).on ⟨h, {}⟩ =
      let u := d.moved .unpublished none
      done (.ok (),
        ⟨h.withRecord ((h.record.putVariant .draft none).putVariant .unpublished (some u)),
          { result := some (.ofVariant h.id u) }⟩) := by
  have hr : standard.rule? .commit h.record.status =
      some ⟨.commit, { draft := .present, unpublished := .absent, published := .absent },
        [.changeStage .draft .unpublished, .returnVariant .unpublished]⟩ := by
    rw [rule?_status, hd, hu, hp]
    rfl
  rw [on_standard ha hr]
  simp [on_runTasks_cons, on_runTasks_nil, Task.run, Task.on_runChangeStage,
    Task.on_runReturnVariant, Handle.has_eq, hd, hu]
  rfl

/-- A draft without an unpublished variant is committed by the first rule only
if there is no published variant either. -/
theorem on_commit_draft {d : Variant}
    (ha : (Hints.ofHandle h).allows .commit ctx.arguments.request = true)
    (hd : h.variant? .draft = some d)
    (hup : (h.variant? .unpublished).isSome ∨ (h.variant? .published).isSome) :
    (standard.fireWithin ctx (depth + 1) .commit).on ⟨h, {}⟩ =
      match h.variant? .unpublished with
      | none => done (.error (.state (.variantMissing h.id .unpublished)), ⟨h, {}⟩)
      | some u =>
          ask .now fun t =>
            let written := u.withContent d.content h.user t
            done (.ok (),
              ⟨h.withRecord
                ((h.record.putVariant .unpublished (some written)).putVariant .draft none),
                { result := some (.ofVariant h.id written) }⟩) := by
  have hr : standard.rule? .commit h.record.status =
      some ⟨.commit, { draft := .present },
        [.copyContent .draft .unpublished, .removeVariant .draft,
         .returnVariant .unpublished]⟩ := by
    rw [rule?_status, hd]
    rcases hup with h' | h'
    · rw [h']
      cases (h.variant? .published).isSome <;> rfl
    · rw [h']
      cases (h.variant? .unpublished).isSome <;> rfl
  rw [on_standard ha hr]
  cases hu : h.variant? .unpublished with
  | none =>
      simp [on_runTasks_cons, Task.run, Task.on_runCopyContent, hd, hu, Failure.leaving]
      rfl
  | some u =>
      simp [on_runTasks_cons, on_runTasks_nil, Task.run, Task.on_runCopyContent,
        Task.on_runReturnVariant, hd, hu]
      rfl

theorem on_dispose {d u : Variant}
    (ha : (Hints.ofHandle h).allows .dispose ctx.arguments.request = true)
    (hd : h.variant? .draft = some d) (hu : h.variant? .unpublished = some u) :
    (standard.fireWithin ctx (depth + 1) .dispose).on ⟨h, {}⟩ =
      done (.ok (), ⟨h.withRecord (h.record.putVariant .draft none),
        { result := some (.ofVariant h.id u) }⟩) := by
  have hr : standard.rule? .dispose h.record.status =
      some ⟨.dispose, { draft := .present, unpublished := .present },
        [.removeVariant .draft, .returnVariant .unpublished]⟩ := by
    rw [rule?_status, hd, hu]
    rfl
  have hu' : h.record.variants.get .unpublished = some u := hu
  rw [on_standard ha hr]
  simp [on_runTasks_cons, on_runTasks_nil, Task.run, Task.on_runReturnVariant, hu']
  rfl

theorem on_update {d : Variant}
    (ha : (Hints.ofHandle h).allows .update ctx.arguments.request = true)
    (hd : h.variant? .draft = some d) :
    (standard.fireWithin ctx (depth + 1) .update).on ⟨h, {}⟩ =
      match ctx.arguments.content with
      | none => done (.error (.argument (.missing "content")), ⟨h, {}⟩)
      | some content =>
          ask .now fun t =>
            let written := d.withContent content h.user t
            done (.ok (), ⟨h.withRecord (h.record.putVariant .draft (some written)),
              { result := some (.ofVariant h.id written) }⟩) := by
  have hr : standard.rule? .update h.record.status =
      some ⟨.update, { draft := .present }, [.writeContent .draft, .returnVariant .draft]⟩ := by
    rw [rule?_status, hd]
    rfl
  rw [on_standard ha hr]
  cases hc : ctx.arguments.content with
  | none =>
      simp [on_runTasks_cons, Task.run, Task.on_runWriteContent, hc]
      rfl
  | some content =>
      simp [on_runTasks_cons, on_runTasks_nil, Task.run, Task.on_runWriteContent,
        Task.on_runReturnVariant, hc, hd]
      rfl

theorem on_unlock {d : Variant}
    (ha : (Hints.ofHandle h).allows .unlock ctx.arguments.request = true)
    (hd : h.variant? .draft = some d) :
    (standard.fireWithin ctx (depth + 1) .unlock).on ⟨h, {}⟩ =
      done (.ok (), ⟨h.withRecord (h.record.putVariant .draft (some d.released)), {}⟩) := by
  have hr : standard.rule? .unlock h.record.status =
      some ⟨.unlock, { draft := .present }, [.releaseDraft]⟩ := by
    rw [rule?_status, hd]
    rfl
  have hd' : h.record.variants.get .draft = some d := hd
  rw [on_standard_single ha hr]
  simp [Task.run, Task.on_runReleaseDraft, hd']
  rfl

/-! ## Publishing -/

theorem on_publish {u : Variant}
    (ha : (Hints.ofHandle h).allows .publish ctx.arguments.request = true)
    (hu : h.variant? .unpublished = some u) (hp : h.variant? .published = none) :
    (standard.fireWithin ctx (depth + 1) .publish).on ⟨h, {}⟩ =
      ask .now fun t => ask (.fresh .variant) fun name => ask .now fun t' =>
        let p : Variant := .entering .published name u.content h.user t (some t')
        done (.ok (), ⟨h.withRecord (h.record.putVariant .published (some p)), {}⟩) := by
  have hr : standard.rule? .publish h.record.status =
      some ⟨.publish, { unpublished := .present, published := .absent },
        [.createVariant .unpublished .published]⟩ := by
    rw [rule?_status, hu, hp]
    cases (h.variant? .draft).isSome <;> rfl
  rw [on_standard_single ha hr, Task.run, Task.on_runCreateVariant]
  simp [Handle.has_eq, hu, hp]
  rfl

theorem on_depublish {p : Variant}
    (ha : (Hints.ofHandle h).allows .depublish ctx.arguments.request = true)
    (hp : h.variant? .published = some p) :
    (standard.fireWithin ctx (depth + 1) .depublish).on ⟨h, {}⟩ =
      done (.ok (), ⟨h.withRecord
        (match h.variant? .unpublished with
          | some _ => h.record.putVariant .published none
          | none => (h.record.putVariant .published none).putVariant .unpublished
              (some (p.moved .unpublished none))), {}⟩) := by
  cases hu : h.variant? .unpublished with
  | some u =>
      have hr : standard.rule? .depublish h.record.status =
          some ⟨.depublish, { unpublished := .present, published := .present },
            [.removeVariant .published]⟩ := by
        rw [rule?_status, hu, hp]
        cases (h.variant? .draft).isSome <;> rfl
      rw [on_standard_single ha hr]
      simp [Task.run]
      rfl
  | none =>
      have hr : standard.rule? .depublish h.record.status =
          some ⟨.depublish, { unpublished := .absent, published := .present },
            [.changeStage .published .unpublished]⟩ := by
        rw [rule?_status, hu, hp]
        cases (h.variant? .draft).isSome <;> rfl
      rw [on_standard_single ha hr, Task.run, Task.on_runChangeStage]
      simp [Handle.has_eq, hu, hp]
      rfl

theorem on_delete (ha : (Hints.ofHandle h).allows .delete ctx.arguments.request = true) :
    (standard.fireWithin ctx (depth + 1) .delete).on ⟨h, {}⟩ =
      done (.ok (), ⟨h, { deletes := true }⟩) := by
  rw [on_standard_single ha rfl]
  simp [Task.run]
  rfl

/-! ## Filing requests -/

theorem on_filing {kind : RequestKind} (hop : op.filed? = some kind)
    (ha : (Hints.ofHandle h).allows op ctx.arguments.request = true) :
    (standard.fireWithin ctx (depth + 1) op).on ⟨h, {}⟩ =
      if kind.isScheduled && ctx.arguments.date.isNone then
        done (.error (.argument (.missing "date")), ⟨h, {}⟩)
      else
        ask (.fresh .request) fun id => ask .now fun t =>
          done (.ok (), ⟨h.withRecord { h.record with
            requests := h.record.requests ++ [⟨id, kind, ctx.arguments.date, none, h.user, t⟩] },
            { request := some id }⟩) := by
  have hr : standard.rule? op h.record.status = some ⟨op, .any, [.createRequest kind]⟩ := by
    cases op <;> cases hop <;> rfl
  rw [on_standard_single ha hr, Task.run, Task.on_runCreateRequest]
  by_cases hdate : (kind.isScheduled && ctx.arguments.date.isNone) = true
  · rw [if_pos hdate]
    rfl
  · rw [if_neg hdate]
    rfl

end

end Table

end Editorial
