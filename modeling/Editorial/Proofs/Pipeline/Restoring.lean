import Editorial.Proofs.Pipeline.Outcome

/-!
# Three ways to put a version back

A version is put back into the unpublished variant, into a variant of the same document
that is named, or into a variant of another document. The third way does not work on the
document in hand at all: it loads the other one, writes into what was loaded and stages
the write. So it can not be compared with the other two by what is left of the work in
hand. It is compared with what would have been done with the other document in hand, if
the same snapshot stood in its history: what would be left of that record is what is
staged, up to the history, and where the one fails so does the other.

Names of operations appear in failures, so two operations are compared by the kinds of
their failures. The equations are between processes: the same steps are taken, and the
ends are the same for every answer to them.

## Main results

* `on_runRestoreVersionTo_own` — naming the own unpublished variant changes nothing.
* `exists_restoresElsewhere` — another document is written as if it were in hand.
* `restoring_agrees` — the ways to put a version back agree.
-/

namespace Editorial

/-! ## Kinds of failures -/

/-- Wrapping a failure leaves it of the same kind, whatever met it. -/
theorem Failure.kind_leaving (f : Failure) (op op' : Operation) (task task' : Task) :
    (f.leaving op task).kind = (f.leaving op' task').kind := by
  unfold leaving
  cases f.isDomain <;> rfl

/-- How a pipeline has ended, with a failure told by its kind only. -/
def Act.byKind (r : Except Failure Unit × Work) : Except FailureKind Unit × Work :=
  (r.1.mapError Failure.kind, r.2)

theorem Act.byKind_leaving (r : Except Failure Unit × Work) (op op' : Operation)
    (task task' : Task) :
    byKind (r.1.mapError (Failure.leaving op task), r.2) =
      byKind (r.1.mapError (Failure.leaving op' task'), r.2) := by
  rcases r with ⟨failure | _, w⟩
  · exact congrArg (fun kind => (Except.error kind, w)) (failure.kind_leaving op op' task task')
  · rfl

/-! ## The tasks -/

/-- The document that another one is while it is in hand, with `history` for its own. -/
def Stored.inHand (stored : Stored) (user : String) (history : List Snapshot) : Work :=
  ⟨⟨{ stored.record with history := history }, stored.revision, user⟩, {}⟩

/-- The work in hand after a write into another document was staged: `r` is what came of
the other document in hand. -/
def Work.staging (w : Work) (stored : Stored) (r : Except Failure Unit × Work) :
    Except Failure Unit × Work :=
  match r.1 with
  | .error failure => (.error failure, w)
  | .ok () =>
      (.ok (), { w with transaction := { w.transaction with
        result := r.2.transaction.result
        staged := w.transaction.staged ++
          [.put { r.2.handle.record with history := stored.record.history }
            (some stored.revision)] } })

namespace Task

open Act Process

variable {w : Work} {arguments : Arguments} {t : Instant} {s : Snapshot} {target : Reference}

/-- Looking a snapshot up leaves the work in hand as it is. -/
theorem exists_on_namedSnapshot (arguments : Arguments) (w : Work) :
    ∃ found, (namedSnapshot arguments).on w = done (found, w) := by
  rw [on_namedSnapshot]
  cases arguments.timestamp with
  | none => exact ⟨_, rfl⟩
  | some t =>
      cases hs : Snapshot.inForce? w.handle.record.history t with
      | none => exact ⟨.error (.versionMissing w.handle.id t), by simp only [hs]⟩
      | some s => exact ⟨.ok s, by simp only [hs]⟩

/-- The snapshot in force is found. -/
theorem on_namedSnapshot_of_inForce (ht : arguments.timestamp = some t)
    (hs : Snapshot.inForce? w.handle.record.history t = some s) :
    (namedSnapshot arguments).on w = done (.ok s, w) := by
  simp only [on_namedSnapshot, ht, hs]

/-- Naming the own unpublished variant is naming none. -/
theorem on_runRestoreVersionTo_own
    (htarget : arguments.target = some ⟨w.handle.id, .unpublished⟩) :
    (runRestoreVersionTo arguments).on w = (runRestoreVersion arguments).on w := by
  obtain ⟨found, hfound⟩ := exists_on_namedSnapshot arguments w
  rw [on_runRestoreVersionTo, on_runRestoreVersion, hfound]
  rcases found with failure | s
  · rfl
  · simp only [bind_done, htarget, if_true]

/-- What putting a snapshot into the variant `target` of another document comes to: the
document is asked for, and `next` goes on with the answer. -/
structure RestoresElsewhere (arguments : Arguments) (w : Work) (t : Instant) (s : Snapshot)
    (target : Reference)
    (next : Except Failure (Option Stored) → Process (Except Failure Unit × Work)) : Prop where
  asks : (runRestoreVersionTo arguments).on w = ask (.load target.handle) next
  unanswered : ∀ failure, next (.error failure) = done (.error failure, w)
  unknown : next (.ok none) = done (.error (.handleMissing target.handle), w)
  /-- It ends as it would with the other document in hand, if that held the snapshot: what
  would be left is staged. -/
  inHand : ∀ stored, stored.record.id = target.handle →
    ∀ history, Snapshot.inForce? history t = some s → next (.ok (some stored)) =
      ((runRestoreVersionTo arguments).on (stored.inHand w.handle.user history)).bind fun r =>
        done (w.staging stored r)
  /-- The record is staged as it was loaded, but for what a write changes in the variant,
  and is to replace the revision that was loaded. -/
  writes : ∀ stored v, stored.record.variants.get target.stage = some v →
    next (.ok (some stored)) = ask .now fun now =>
      let written : Variant :=
        { v with content := s.content, modifiedAt := now, modifiedBy := w.handle.user }
      done (.ok (), { w with transaction := { w.transaction with
        result := some (.ofVariant target.handle written)
        staged := w.transaction.staged ++
          [.put (stored.record.putVariant target.stage (some written))
            (some stored.revision)] } })
  absent : ∀ stored, stored.record.variants.get target.stage = none →
    next (.ok (some stored)) =
      done (.error (.state (.variantMissing target.handle target.stage)), w)

theorem exists_restoresElsewhere (ht : arguments.timestamp = some t)
    (hs : Snapshot.inForce? w.handle.record.history t = some s)
    (htarget : arguments.target = some target) (hother : target.handle ≠ w.handle.id) :
    ∃ next, RestoresElsewhere arguments w t s target next := by
  have hprocess := on_runRestoreVersionTo w arguments
  rw [on_namedSnapshot_of_inForce ht hs] at hprocess
  simp only [bind_done, htarget, if_neg hother] at hprocess
  refine ⟨_, hprocess, fun failure => rfl, rfl, fun stored hid history hheld => ?_,
    fun stored v hv => ?_, fun stored hv => ?_⟩
  · have htwin : (namedSnapshot arguments).on (stored.inHand w.handle.user history) =
        done (.ok s, stored.inHand w.handle.user history) :=
      on_namedSnapshot_of_inForce ht hheld
    have hown : (stored.inHand w.handle.user history).handle.id = target.handle := hid
    have hget : (stored.inHand w.handle.user history).handle.variant? target.stage =
        stored.record.variants.get target.stage := rfl
    rw [on_runRestoreVersionTo, htwin]
    simp only [bind_done, htarget, hown, if_true, hget]
    cases stored.record.variants.get target.stage with
    | none => rfl
    | some v => rfl
  · simp only [hv]
    rfl
  · simp only [hv]

/-- A variant of the document in hand is written where it stands. -/
theorem on_runRestoreVersionTo_present (ht : arguments.timestamp = some t)
    (hs : Snapshot.inForce? w.handle.record.history t = some s)
    (htarget : arguments.target = some target) (hown : target.handle = w.handle.id) {v : Variant}
    (hv : w.handle.variant? target.stage = some v) :
    (runRestoreVersionTo arguments).on w = ask .now fun now =>
      let written : Variant :=
        { v with content := s.content, modifiedAt := now, modifiedBy := w.handle.user }
      done (.ok (),
        ⟨w.handle.withRecord (w.handle.record.putVariant target.stage (some written)),
          { w.transaction with result := some (.ofVariant w.handle.id written) }⟩) := by
  rw [on_runRestoreVersionTo, on_namedSnapshot_of_inForce ht hs]
  simp only [bind_done, htarget, if_pos hown, hv]
  rfl

theorem on_runRestoreVersionTo_absent (ht : arguments.timestamp = some t)
    (hs : Snapshot.inForce? w.handle.record.history t = some s)
    (htarget : arguments.target = some target) (hown : target.handle = w.handle.id)
    (hv : w.handle.variant? target.stage = none) :
    (runRestoreVersionTo arguments).on w =
      done (.error (.state (.variantMissing w.handle.id target.stage)), w) := by
  rw [on_runRestoreVersionTo, on_namedSnapshot_of_inForce ht hs]
  simp only [bind_done, htarget, if_pos hown, hv]

end Task

/-! ## The operations -/

namespace Table

open Process

variable {ctx : Context} {h : Handle}

/-- Fired by either operation, a version comes back into the own unpublished variant in the
same steps and to the same end, and failures are of the same kind. -/
theorem on_fire_restoreVersionTo_own
    (htarget : ctx.arguments.target = some ⟨h.id, .unpublished⟩) :
    ((standard.fire ctx .restoreVersionTo).on ⟨h, {}⟩).bind (fun r => done (Act.byKind r)) =
      ((standard.fire ctx .restoreVersion).on ⟨h, {}⟩).bind fun r => done (Act.byKind r) := by
  have hsame : (Hints.ofHandle h).allows .restoreVersionTo ctx.arguments.request =
      (Hints.ofHandle h).allows .restoreVersion ctx.arguments.request := by
    rw [Hints.allows_eq h rfl, Hints.allows_eq h rfl]
    rfl
  cases ha : (Hints.ofHandle h).allows .restoreVersion ctx.arguments.request with
  | false =>
      rw [on_fire_denied (hsame.trans ha), on_fire_denied ha]
      rfl
  | true =>
      obtain ⟨u, hu⟩ := Handle.exists_unpublished_of_allows (by simp)
        ((Hints.allows_eq h rfl _).symm.trans ha)
      unfold fire depthLimit
      rw [on_standard_single (hsame.trans ha) (rule_of_unpublished .restoreVersionTo (by simp) hu),
        on_standard_single ha (rule_of_unpublished .restoreVersion (by simp) hu)]
      unfold Task.run
      rw [Task.on_runRestoreVersionTo_own htarget, bind_assoc, bind_assoc]
      congr 1
      funext r
      simp only [bind_done, Act.byKind_leaving r .restoreVersionTo .restoreVersion
        .restoreVersionTo .restoreVersion]

end Table

/-- With these arguments, versions are put back alike on every path. -/
structure RestoresAlike (ctx : Context) : Prop where
  /-- The two operations come to the same, if the own unpublished variant is named. -/
  operations : ∀ h : Handle, ctx.arguments.target = some ⟨h.id, .unpublished⟩ →
    ((Table.standard.fire ctx .restoreVersionTo).on ⟨h, {}⟩).bind
        (fun r => .done (Act.byKind r)) =
      ((Table.standard.fire ctx .restoreVersion).on ⟨h, {}⟩).bind fun r => .done (Act.byKind r)
  /-- So do their tasks, and with the same failures. -/
  tasks : ∀ w : Work, ctx.arguments.target = some ⟨w.handle.id, .unpublished⟩ →
    (Task.runRestoreVersionTo ctx.arguments).on w = (Task.runRestoreVersion ctx.arguments).on w
  /-- A variant of the own document is written where it stands. -/
  present : ∀ (w : Work) (t : Instant) (s : Snapshot) (target : Reference) (v : Variant),
    ctx.arguments.timestamp = some t → Snapshot.inForce? w.handle.record.history t = some s →
    ctx.arguments.target = some target → target.handle = w.handle.id →
    w.handle.variant? target.stage = some v →
    (Task.runRestoreVersionTo ctx.arguments).on w = .ask .now fun now =>
      let written : Variant :=
        { v with content := s.content, modifiedAt := now, modifiedBy := w.handle.user }
      .done (.ok (),
        ⟨w.handle.withRecord (w.handle.record.putVariant target.stage (some written)),
          { w.transaction with result := some (.ofVariant w.handle.id written) }⟩)
  absent : ∀ (w : Work) (t : Instant) (s : Snapshot) (target : Reference),
    ctx.arguments.timestamp = some t → Snapshot.inForce? w.handle.record.history t = some s →
    ctx.arguments.target = some target → target.handle = w.handle.id →
    w.handle.variant? target.stage = none →
    (Task.runRestoreVersionTo ctx.arguments).on w =
      .done (.error (.state (.variantMissing w.handle.id target.stage)), w)
  /-- A variant of another document is staged as it would be left there. -/
  elsewhere : ∀ (w : Work) (t : Instant) (s : Snapshot) (target : Reference),
    ctx.arguments.timestamp = some t → Snapshot.inForce? w.handle.record.history t = some s →
    ctx.arguments.target = some target → target.handle ≠ w.handle.id →
    ∃ next, Task.RestoresElsewhere ctx.arguments w t s target next

/-- Putting a version back is the same on every path, on every handle, for every time, user
and clock. -/
theorem restoring_agrees (ctx : Context) : RestoresAlike ctx where
  operations _ htarget := Table.on_fire_restoreVersionTo_own htarget
  tasks _ htarget := Task.on_runRestoreVersionTo_own htarget
  present _ _ _ _ _ ht hs htarget hown hv :=
    Task.on_runRestoreVersionTo_present ht hs htarget hown hv
  absent _ _ _ _ ht hs htarget hown hv :=
    Task.on_runRestoreVersionTo_absent ht hs htarget hown hv
  elsewhere _ _ _ _ ht hs htarget hother := Task.exists_restoresElsewhere ht hs htarget hother

end Editorial
