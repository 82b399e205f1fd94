import Editorial.Proofs.Pipeline.Act

/-!
# What each task does

One equation for each task: the steps it takes on the work in hand, what it
makes of the answers, and where it fails. Tasks that carry requests out are
given by what firing an operation does.
-/

namespace Editorial

/-- A new variant as it enters the place of `stage`: made by `user`, who holds
it if it is a draft. -/
def Variant.entering (stage : Stage) (id : String) (content : Payload) (user : String)
    (now : Instant) (publishedAt : Option Instant) : Variant where
  id := id
  stage := stage
  content := content
  createdAt := now
  createdBy := user
  modifiedAt := now
  modifiedBy := user
  holder := if stage = .draft then some user else none
  publishedAt := publishedAt

/-- The variant as it moves to the place of another stage. -/
def Variant.moved (v : Variant) (stage : Stage) (publishedAt : Option Instant) : Variant :=
  { v with
    stage := stage
    publishedAt := publishedAt
    holder := if stage = .draft then v.holder else none }

/-- The variant in the hands of `user`. -/
def Variant.heldBy (v : Variant) (user : String) : Variant := { v with holder := some user }

/-- The variant in nobody's hands. -/
def Variant.released (v : Variant) : Variant := { v with holder := none }

namespace Task

open Act Process

variable (w : Work) (ctx : Context) (arguments : Arguments) (fire : Operation → Act Unit)

/-! ## Variants -/

theorem on_requireFree (stage : Stage) :
    (requireFree stage).on w =
      if w.handle.record.variants.has stage then
        done (.error (.state (.variantExists w.handle.id stage)), w)
      else done (.ok (), w) := by
  simp [requireFree, on_bind]

theorem on_newVariant (stage : Stage) (content : Payload) :
    (newVariant stage content).on w =
      ask .now fun t => ask (.fresh .variant) fun name =>
        done (.ok (.entering stage name content w.handle.user t none), w) := by
  unfold newVariant
  simp only [on_bind, on_handle, on_now, on_fresh, on_pure, bind_done, bind_ask]
  by_cases h : stage = .draft <;> simp [h, Variant.entering, Variant.make]

theorem on_publicationTime (stage : Stage) :
    (publicationTime stage).on w =
      if stage = .published then ask .now fun t => done (.ok (some t), w)
      else done (.ok none, w) := by
  unfold publicationTime
  by_cases h : stage = .published
  · simp only [h, if_true, on_bind, on_now, on_pure, bind_done, bind_ask]
  · simp only [h, if_false, on_pure]

theorem on_runCreateVariant (source target : Stage) :
    (runCreateVariant source target).on w =
      if w.handle.record.variants.has target then
        done (.error (.state (.variantExists w.handle.id target)), w)
      else
        match w.handle.variant? source with
        | none => done (.error (.state (.variantMissing w.handle.id source)), w)
        | some v =>
            ask .now fun t => ask (.fresh .variant) fun name =>
              let entering (publishedAt : Option Instant) :=
                w.mapRecord fun r => r.putVariant target
                  (some (.entering target name v.content w.handle.user t publishedAt))
              if target = .published then ask .now fun t' => done (.ok (), entering (some t'))
              else done (.ok (), entering none) := by
  unfold runCreateVariant
  simp only [on_bind, on_requireFree]
  by_cases hfree : w.handle.record.variants.has target
  · simp only [hfree, if_true, bind_done]
  · simp only [hfree, Bool.false_eq_true, if_false, bind_done, on_requireVariant]
    cases w.handle.variant? source with
    | none => rfl
    | some v =>
        simp only [bind_done, on_newVariant, bind_ask, on_publicationTime]
        by_cases hpub : target = .published
        · simp [hpub, Variant.entering]
        · simp [hpub, Variant.entering]

theorem on_runChangeStage (source target : Stage) :
    (runChangeStage source target).on w =
      if w.handle.record.variants.has target then
        done (.error (.state (.variantExists w.handle.id target)), w)
      else
        match w.handle.variant? source with
        | none => done (.error (.state (.variantMissing w.handle.id source)), w)
        | some v =>
            let moved (publishedAt : Option Instant) :=
              w.mapRecord fun r =>
                (r.putVariant source none).putVariant target (some (v.moved target publishedAt))
            if target = .published then ask .now fun t => done (.ok (), moved (some t))
            else done (.ok (), moved none) := by
  unfold runChangeStage
  simp only [on_bind, on_requireFree]
  by_cases hfree : w.handle.record.variants.has target
  · simp only [hfree, if_true, bind_done]
  · simp only [hfree, Bool.false_eq_true, if_false, bind_done, on_requireVariant]
    cases w.handle.variant? source with
    | none => rfl
    | some v =>
        simp only [bind_done, on_changeRecord, on_publicationTime]
        by_cases hpub : target = .published
        · simp [hpub, Work.mapRecord, Variant.moved]
        · simp [hpub, Work.mapRecord, Variant.moved]

theorem on_writeInto (stage : Stage) (content : Payload) :
    (writeInto stage content).on w =
      match w.handle.variant? stage with
      | none => done (.error (.state (.variantMissing w.handle.id stage)), w)
      | some v =>
          ask .now fun t =>
            let written := v.withContent content w.handle.user t
            done (.ok written, w.mapRecord fun r => r.putVariant stage (some written)) := by
  unfold writeInto
  simp only [on_bind, on_requireVariant]
  cases w.handle.variant? stage with
  | none => rfl
  | some v => simp

theorem on_runCopyContent (source target : Stage) :
    (runCopyContent source target).on w =
      match w.handle.variant? source, w.handle.variant? target with
      | none, _ => done (.error (.state (.variantMissing w.handle.id source)), w)
      | some _, none => done (.error (.state (.variantMissing w.handle.id target)), w)
      | some v, some v' =>
          ask .now fun t => done (.ok (), w.mapRecord fun r => r.putVariant target
            (some (v'.withContent v.content w.handle.user t))) := by
  unfold runCopyContent
  simp only [on_bind, on_requireVariant]
  cases w.handle.variant? source with
  | none => rfl
  | some v =>
      simp only [bind_done, on_writeInto]
      cases w.handle.variant? target with
      | none => rfl
      | some v' => simp

theorem on_runWriteContent (stage : Stage) :
    (runWriteContent arguments stage).on w =
      match arguments.content, w.handle.variant? stage with
      | none, _ => done (.error (.argument (.missing "content")), w)
      | some _, none => done (.error (.state (.variantMissing w.handle.id stage)), w)
      | some content, some v =>
          ask .now fun t => done (.ok (), w.mapRecord fun r => r.putVariant stage
            (some (v.withContent content w.handle.user t))) := by
  unfold runWriteContent
  simp only [on_bind, on_require]
  cases arguments.content with
  | none => rfl
  | some content =>
      simp only [bind_done, on_writeInto]
      cases w.handle.variant? stage with
      | none => rfl
      | some v => simp

theorem on_runClaimDraft :
    runClaimDraft.on w =
      match w.handle.variant? .draft with
      | none => done (.error (.state (.variantMissing w.handle.id .draft)), w)
      | some v =>
          done (.ok (), w.mapRecord fun r => r.putVariant .draft
            (some (v.heldBy w.handle.user))) := by
  unfold runClaimDraft
  simp only [on_bind, on_requireVariant]
  cases w.handle.variant? .draft with
  | none => rfl
  | some v => rfl

theorem on_runReleaseDraft :
    runReleaseDraft.on w =
      done (.ok (), w.mapRecord fun r =>
        r.putVariant .draft ((r.variants.get .draft).map Variant.released)) := rfl

theorem on_runReturnVariant (stage : Stage) :
    (runReturnVariant stage).on w =
      match w.handle.variant? stage with
      | none => done (.error (.state (.variantMissing w.handle.id stage)), w)
      | some v =>
          done (.ok (), { w with transaction :=
            { w.transaction with result := some (.ofVariant w.handle.id v) } }) := by
  unfold runReturnVariant
  simp only [on_bind, on_requireVariant]
  cases w.handle.variant? stage with
  | none => rfl
  | some v => rfl

/-! ## Whole documents -/

theorem on_requireVacant (location : Location) :
    (requireVacant location).on w =
      ask (.find location) fun answer =>
        match answer with
        | .error failure => done (.error failure, w)
        | .ok none => done (.ok (), w)
        | .ok (some existing) =>
            if existing = w.handle.id then done (.ok (), w)
            else done (.error (.state (.nameTaken location.name location.container)), w) := by
  unfold requireVacant
  simp only [on_bind, on_find, bind_ask, bind_done]
  congr 1
  funext answer
  rcases answer with failure | _ | existing
  · rfl
  · rfl
  · by_cases h : existing = w.handle.id
    · simp [h, on_bind]
    · simp [h, on_bind]

theorem on_destination :
    (destination ctx).on w =
      match ctx.arguments.destination, ctx.arguments.newName with
      | none, _ => done (.error (.argument (.missing "destination")), w)
      | some _, none => done (.error (.argument (.missing "new name")), w)
      | some container, some name =>
          ask (.folder ctx.category container) fun answer =>
            match answer with
            | .error failure => done (.error failure, w)
            | .ok none => done (.error (.state (.folderUnknown container ctx.category)), w)
            | .ok (some folder) =>
                if folder.embeds then
                  ((requireVacant ⟨container, name⟩).on w).bind fun r =>
                    done (r.1.map fun _ => ⟨container, name⟩, r.2)
                else done (.error (.state (.folderClosed container)), w) := by
  unfold destination
  simp only [on_bind, on_require]
  cases ctx.arguments.destination with
  | none => rfl
  | some container =>
      cases ctx.arguments.newName with
      | none => rfl
      | some name =>
          simp only [bind_done, on_folder, bind_ask]
          congr 1
          funext answer
          rcases answer with failure | _ | folder
          · rfl
          · rfl
          · cases h : folder.embeds
            · simp [h]
            · simp only [h, Bool.not_true, Bool.false_eq_true, if_false, if_true, on_bind, on_pure]
              congr 1
              funext r
              rcases r with ⟨_ | _, _⟩ <;> rfl

theorem on_runCopyDocument :
    (runCopyDocument ctx).on w =
      ((destination ctx).on w).bind fun r =>
        match r.1 with
        | .error failure => done (.error failure, r.2)
        | .ok location =>
            match (r.2.handle.variant? .unpublished).or (r.2.handle.variant? .published) with
            | none => done (.error (.state (.contentMissing r.2.handle.id)), r.2)
            | some v =>
                ask (.fresh .handle) fun id => ask .now fun t => ask (.fresh .variant) fun name =>
                  done (.ok (), { r.2 with transaction :=
                    { r.2.transaction with
                      created := r.2.transaction.created ++ [id]
                      staged := r.2.transaction.staged ++
                        [.put (.single id (some location)
                          (.entering .unpublished name v.content r.2.handle.user t none)) none] } }) := by
  unfold runCopyDocument
  simp only [on_bind]
  congr 1
  funext r
  rcases r with ⟨failure | location, w'⟩
  · rfl
  · simp only [on_handle, bind_done]
    cases (w'.handle.variant? .unpublished).or (w'.handle.variant? .published) with
    | none => rfl
    | some v => simp [on_bind, on_newVariant]

theorem on_runMoveDocument :
    (runMoveDocument ctx).on w =
      ((destination ctx).on w).bind fun r =>
        match r.1 with
        | .error failure => done (.error failure, r.2)
        | .ok location =>
            done (.ok (), r.2.mapRecord fun record =>
              { record with location := some location }) := by
  unfold runMoveDocument
  rw [on_bind]
  congr 1
  funext r
  rcases r with ⟨failure | location, w'⟩
  · rfl
  · simp

theorem on_runRenameDocument :
    (runRenameDocument arguments).on w =
      match arguments.newName, w.handle.record.location with
      | none, _ => done (.error (.argument (.missing "new name")), w)
      | some _, none => done (.error (.state (.notFiled w.handle.id)), w)
      | some name, some location =>
          ((requireVacant ⟨location.container, name⟩).on w).bind fun r =>
            match r.1 with
            | .error failure => done (.error failure, r.2)
            | .ok () =>
                done (.ok (), r.2.mapRecord fun record =>
                  { record with location := some ⟨location.container, name⟩ }) := by
  unfold runRenameDocument
  simp only [on_bind, on_require]
  cases arguments.newName with
  | none => rfl
  | some name =>
      simp only [bind_done, on_handle]
      cases w.handle.record.location with
      | none => rfl
      | some location =>
          simp only [on_bind]
          congr 1
          funext r
          rcases r with ⟨failure | _, w'⟩
          · rfl
          · simp

/-! ## Requests -/

theorem on_runCreateRequest (kind : RequestKind) :
    (runCreateRequest arguments kind).on w =
      if kind.isScheduled && arguments.date.isNone then
        done (.error (.argument (.missing "date")), w)
      else
        ask (.fresh .request) fun id => ask .now fun t =>
          done (.ok (),
            ⟨w.handle.withRecord { w.handle.record with
              requests := w.handle.record.requests ++
                [⟨id, kind, arguments.date, none, w.handle.user, t⟩] },
              { w.transaction with request := some id }⟩) := by
  unfold runCreateRequest
  cases hk : kind.isScheduled with
  | false => simp [on_bind, Work.mapRecord]
  | true =>
      cases hd : arguments.date with
      | none => simp [on_bind, on_require]
      | some date => simp [on_bind, on_require, Work.mapRecord]

theorem on_namedRequest :
    (namedRequest arguments).on w =
      match arguments.request with
      | none => done (.error (.argument (.missing "request id")), w)
      | some id =>
          match w.handle.record.request? id with
          | none => done (.error (.state (.requestMissing w.handle.id id)), w)
          | some q => done (.ok q, w) := by
  unfold namedRequest
  simp only [on_bind, on_require]
  cases arguments.request with
  | none => rfl
  | some id =>
      simp only [bind_done, on_handle]
      cases w.handle.record.request? id <;> rfl

theorem on_carryOut (q : Request) :
    (carryOut fire q).on w =
      match Operation.resolving? q.kind with
      | none => done (.error (.state .requestRejected), w)
      | some op => (fire op).on (w.mapRecord fun r => r.dropRequest q.id) := by
  unfold carryOut
  cases Operation.resolving? q.kind with
  | none => rfl
  | some op => simp [on_bind]

theorem on_runAcceptRequest :
    (runAcceptRequest arguments fire).on w =
      ((namedRequest arguments).on w).bind fun r =>
        match r.1 with
        | .error failure => done (.error failure, r.2)
        | .ok q =>
            match if q.isDeferred arguments.now then scheduledKind? q.kind else none with
            | some kind =>
                done (.ok (), r.2.mapRecord fun record =>
                  record.changeRequest q.id fun q => { q with kind := kind })
            | none => (carryOut fire q).on r.2 := by
  unfold runAcceptRequest
  rw [on_bind]
  congr 1
  funext r
  rcases r with ⟨failure | q, w'⟩
  · rfl
  · cases h : (if q.isDeferred arguments.now then scheduledKind? q.kind else none) <;> simp [h]

theorem on_runRejectRequest :
    (runRejectRequest arguments).on w =
      ((namedRequest arguments).on w).bind fun r =>
        match r.1 with
        | .error failure => done (.error failure, r.2)
        | .ok q =>
            done (.ok (), r.2.mapRecord fun record => record.changeRequest q.id fun q =>
              { q with kind := .rejected, reason := arguments.reason }) := by
  unfold runRejectRequest
  rw [on_bind]
  congr 1
  funext r
  rcases r with ⟨failure | q, w'⟩
  · rfl
  · simp

theorem on_runCancelRequest :
    (runCancelRequest arguments).on w =
      ((namedRequest arguments).on w).bind fun r =>
        match r.1 with
        | .error failure => done (.error failure, r.2)
        | .ok q => done (.ok (), r.2.mapRecord fun record => record.dropRequest q.id) := by
  unfold runCancelRequest
  rw [on_bind]
  congr 1
  funext r
  rcases r with ⟨failure | q, w'⟩
  · rfl
  · simp

theorem on_runScheduledRequest :
    (runScheduledRequest arguments fire).on w =
      match w.handle.record.pending?.filter fun q => q.kind.isScheduled with
      | none => done (.error (.state (.noScheduledRequest w.handle.id)), w)
      | some q =>
          if q.isDue arguments.now then (carryOut fire q).on w
          else done (.error (.state (.notDue q.kind q.id q.scheduledAt)), w) := by
  unfold runScheduledRequest
  simp only [on_bind, on_handle, bind_done]
  cases w.handle.record.pending?.filter fun q => q.kind.isScheduled with
  | none => rfl
  | some q => cases h : q.isDue arguments.now <;> simp [h]

/-! ## Versions -/

theorem on_namedSnapshot :
    (namedSnapshot arguments).on w =
      match arguments.timestamp with
      | none => done (.error (.argument (.missing "timestamp")), w)
      | some t =>
          match Snapshot.inForce? w.handle.record.history t with
          | none => done (.error (.versionMissing w.handle.id t), w)
          | some s => done (.ok s, w) := by
  unfold namedSnapshot
  simp only [on_bind, on_require]
  cases arguments.timestamp with
  | none => rfl
  | some t =>
      simp only [bind_done, on_handle]
      cases Snapshot.inForce? w.handle.record.history t <;> rfl

/-- A new snapshot is later than the last one. -/
theorem lt_of_snapshotTime {history : List Snapshot} {now t : Instant} {last : Snapshot}
    (ht : snapshotTime history now = some t) (hlast : history.getLast? = some last) :
    last.timestamp < t := by
  simp only [snapshotTime, hlast] at ht
  by_cases hle : now ≤ last.timestamp
  · rw [if_pos hle] at ht
    exact Instant.lt_of_nextMicrosecond? ht
  · rw [if_neg hle] at ht
    cases ht
    exact Instant.not_le.1 hle

/-- There is no time for a new snapshot exactly if the clock is not past the last one and
the calendar ends within a microsecond of that. -/
theorem snapshotTime_eq_none_iff {history : List Snapshot} {now : Instant} :
    snapshotTime history now = none ↔
      ∃ last, history.getLast? = some last ∧ now ≤ last.timestamp ∧
        last.timestamp.nextMicrosecond? = none := by
  cases hlast : history.getLast? with
  | none => simp only [snapshotTime, hlast, reduceCtorEq, false_and, exists_false]
  | some last =>
      simp only [snapshotTime, hlast, Option.some.injEq, exists_eq_left']
      by_cases hle : now ≤ last.timestamp
      · rw [if_pos hle, and_iff_right hle]
      · rw [if_neg hle]
        simp only [hle, false_and, reduceCtorEq]

theorem on_runTakeVersion :
    runTakeVersion.on w =
      match w.handle.variant? .unpublished with
      | none => done (.error (.state (.variantMissing w.handle.id .unpublished)), w)
      | some v =>
          ask .now fun now =>
            match snapshotTime w.handle.record.history now with
            | none => broken
            | some t =>
                let s : Snapshot :=
                  ⟨t, Snapshot.nextName w.handle.record.history, .empty, v.content⟩
                done (.ok (),
                  ⟨w.handle.withRecord { w.handle.record with
                    history := w.handle.record.history ++ [s] },
                    { w.transaction with result := some (.ofSnapshot w.handle.id s) }⟩) := by
  unfold runTakeVersion
  simp only [on_bind, on_requireVariant]
  cases w.handle.variant? .unpublished with
  | none => rfl
  | some v =>
      simp only [bind_done, on_now, bind_ask, on_handle]
      congr 1
      funext now
      cases snapshotTime w.handle.record.history now with
      | none => rfl
      | some t => simp [on_bind, Work.mapRecord]

theorem on_runRestoreVersion :
    (runRestoreVersion arguments).on w =
      ((namedSnapshot arguments).on w).bind fun r =>
        match r.1 with
        | .error failure => done (.error failure, r.2)
        | .ok s =>
            match r.2.handle.variant? .unpublished with
            | none => done (.error (.state (.variantMissing r.2.handle.id .unpublished)), r.2)
            | some v =>
                ask .now fun t =>
                  let written := v.withContent s.content r.2.handle.user t
                  done (.ok (),
                    ⟨r.2.handle.withRecord
                      (r.2.handle.record.putVariant .unpublished (some written)),
                      { r.2.transaction with
                        result := some (.ofVariant r.2.handle.id written) }⟩) := by
  unfold runRestoreVersion
  rw [on_bind]
  congr 1
  funext r
  rcases r with ⟨failure | s, w'⟩
  · rfl
  · simp only [on_bind, on_writeInto]
    cases w'.handle.variant? .unpublished with
    | none => rfl
    | some v => rfl

theorem on_runRestoreVersionTo :
    (runRestoreVersionTo arguments).on w =
      ((namedSnapshot arguments).on w).bind fun r =>
        match r.1, arguments.target with
        | .error failure, _ => done (.error failure, r.2)
        | .ok _, none => done (.error (.argument (.missing "target")), r.2)
        | .ok s, some target =>
            if target.handle = r.2.handle.id then
              match r.2.handle.variant? target.stage with
              | none => done (.error (.state (.variantMissing r.2.handle.id target.stage)), r.2)
              | some v =>
                  ask .now fun t =>
                    let written := v.withContent s.content r.2.handle.user t
                    done (.ok (),
                      ⟨r.2.handle.withRecord
                        (r.2.handle.record.putVariant target.stage (some written)),
                        { r.2.transaction with
                          result := some (.ofVariant r.2.handle.id written) }⟩)
            else
              ask (.load target.handle) fun answer =>
                match answer with
                | .error failure => done (.error failure, r.2)
                | .ok none => done (.error (.handleMissing target.handle), r.2)
                | .ok (some stored) =>
                    match stored.record.variants.get target.stage with
                    | none =>
                        done (.error (.state (.variantMissing target.handle target.stage)), r.2)
                    | some v =>
                        ask .now fun t =>
                          let written := v.withContent s.content r.2.handle.user t
                          done (.ok (), { r.2 with transaction := { r.2.transaction with
                            result := some (.ofVariant target.handle written)
                            staged := r.2.transaction.staged ++
                              [.put (stored.record.putVariant target.stage (some written))
                                (some stored.revision)] } }) := by
  unfold runRestoreVersionTo
  rw [on_bind]
  congr 1
  funext r
  rcases r with ⟨failure | s, w'⟩
  · rfl
  · simp only [on_bind, on_require]
    cases arguments.target with
    | none => rfl
    | some target =>
        simp only [bind_done, on_handle]
        by_cases hown : target.handle = w'.handle.id
        · simp only [hown, if_true, on_bind, on_writeInto]
          cases w'.handle.variant? target.stage with
          | none => rfl
          | some v => rfl
        · simp only [hown, if_false, on_bind, on_load, bind_ask, bind_done]
          congr 1
          funext answer
          rcases answer with failure | _ | stored
          · rfl
          · rfl
          · dsimp only
            cases stored.record.variants.get target.stage with
            | none => rfl
            | some v => simp [on_bind]

theorem on_runRetrieveVersion :
    (runRetrieveVersion arguments).on w =
      ((namedSnapshot arguments).on w).bind fun r =>
        match r.1 with
        | .error failure => done (.error failure, r.2)
        | .ok s =>
            done (.ok (), { r.2 with transaction := { r.2.transaction with
              result := some (.ofSnapshot r.2.handle.id s) } }) := by
  unfold runRetrieveVersion
  rw [on_bind]
  congr 1
  funext r
  rcases r with ⟨failure | s, w'⟩
  · rfl
  · simp [on_bind]

end Task

end Editorial
