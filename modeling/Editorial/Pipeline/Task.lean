import Editorial.Pipeline.Work

/-!
# Tasks

A task is one step of a pipeline. Most tasks change one thing of the record in
hand. Accepting a request and running a scheduled one fire another operation
on the same work; how an operation is fired is a parameter of `Task.run`.
-/

namespace Editorial

/-- One step of a pipeline. -/
inductive Task where
  /-- Make a variant with the content of another one. -/
  | createVariant (source target : Stage)
  | removeVariant (stage : Stage)
  /-- Move a variant to another place. -/
  | changeStage (source target : Stage)
  /-- Write the content of one variant into another one. -/
  | copyContent (source target : Stage)
  /-- Write the content that was given. -/
  | writeContent (stage : Stage)
  | claimDraft
  | releaseDraft
  /-- Hand a variant back to the caller. -/
  | returnVariant (stage : Stage)
  | deleteHandle
  | copyDocument
  | moveDocument
  | renameDocument
  | createRequest (kind : RequestKind)
  | acceptRequest
  | rejectRequest
  | cancelRequest
  | runScheduled
  | takeVersion
  | restoreVersion
  | restoreVersionTo
  | retrieveVersion
  /-- Fail. -/
  | fail (failure : Failure)
  /-- Fire another operation. -/
  | fire (operation : Operation)
deriving DecidableEq

namespace Task

/-- The name of a task in messages. -/
def name : Task → String
  | createVariant _ _ => "create-variant"
  | removeVariant _ => "remove-variant"
  | changeStage _ _ => "change-state"
  | copyContent _ _ => "copy-content"
  | writeContent _ => "write-content"
  | claimDraft => "claim-draft"
  | releaseDraft => "release-draft"
  | returnVariant _ => "return-variant"
  | deleteHandle => "delete-handle"
  | copyDocument => "copy-document"
  | moveDocument => "move-document"
  | renameDocument => "rename-document"
  | createRequest _ => "create-request"
  | acceptRequest => "accept-request"
  | rejectRequest => "reject-request"
  | cancelRequest => "cancel-request"
  | runScheduled => "run-scheduled"
  | takeVersion => "version"
  | restoreVersion => "restore-version"
  | restoreVersionTo => "version-restore-to"
  | retrieveVersion => "retrieve-version"
  | fail _ => "fail"
  | fire _ => "fire"

open Act

/-! ## Variants -/

/-- Fails if there is a variant in the place of `stage`. -/
def requireFree (stage : Stage) : Act Unit := do
  let h ← handle
  if h.record.variants.has stage then throw (.state (.variantExists h.id stage))

/-- Makes a variant in the place of `target` with the content of `source`. -/
def runCreateVariant (source target : Stage) : Act Unit := do
  requireFree target
  let content := (← requireVariant source).content
  let v ← newVariant target content
  let publishedAt ← publicationTime target
  changeRecord fun r => r.putVariant target (some { v with publishedAt := publishedAt })

/-- Moves a variant to the place of `target`. Only drafts stay held. -/
def runChangeStage (source target : Stage) : Act Unit := do
  requireFree target
  let v ← requireVariant source
  changeRecord fun r => r.putVariant source none
  let publishedAt ← publicationTime target
  changeRecord fun r => r.putVariant target (some
    { v with
      stage := target
      publishedAt := publishedAt
      holder := if target = .draft then v.holder else none })

/-- Writes a content into a variant that has to exist. -/
def writeInto (stage : Stage) (content : Payload) : Act Variant := do
  let v ← requireVariant stage
  let written := v.withContent content (← handle).user (← Process.now)
  changeRecord fun r => r.putVariant stage (some written)
  return written

/-- Writes the content of one variant into another one. -/
def runCopyContent (source target : Stage) : Act Unit := do
  let content := (← requireVariant source).content
  let _ ← writeInto target content

/-- Writes the content that was given. -/
def runWriteContent (arguments : Arguments) (stage : Stage) : Act Unit := do
  let content ← require "content" arguments.content
  let _ ← writeInto stage content

/-- Makes the acting user hold the draft. -/
def runClaimDraft : Act Unit := do
  let v ← requireVariant .draft
  let user := (← handle).user
  changeRecord fun r => r.putVariant .draft (some { v with holder := some user })

/-- Lets nobody hold the draft, if there is one. -/
def runReleaseDraft : Act Unit :=
  changeRecord fun r =>
    r.putVariant .draft ((r.variants.get .draft).map fun v => { v with holder := none })

/-- Hands a variant back to the caller. -/
def runReturnVariant (stage : Stage) : Act Unit := do
  let v ← requireVariant stage
  setResult (.ofVariant (← handle).id v)

/-! ## Whole documents -/

/-- Fails if another document is filed at `location`. -/
def requireVacant (location : Location) : Act Unit := do
  match ← ofFlow (Flow.find location) with
  | some existing =>
      if existing ≠ (← handle).id then
        throw (.state (.nameTaken location.name location.container))
  | none => return ()

/-- Where a copied or moved document is to be filed: in a container that takes
documents, under a name that no other document has there. -/
def destination (ctx : Context) : Act Location := do
  let container ← require "destination" ctx.arguments.destination
  let name ← require "new name" ctx.arguments.newName
  match ← ofFlow (Flow.folder ctx.category container) with
  | none => throw (.state (.folderUnknown container ctx.category))
  | some folder => if !folder.embeds then throw (.state (.folderClosed container))
  requireVacant ⟨container, name⟩
  return ⟨container, name⟩

/-- Makes a new document with the unpublished content, or with the published
content if there is no other. -/
def runCopyDocument (ctx : Context) : Act Unit := do
  let location ← destination ctx
  let h ← handle
  let some v := (h.variant? .unpublished).or (h.variant? .published)
    | throw (.state (.contentMissing h.id))
  let id ← Process.fresh .handle
  let copied ← newVariant .unpublished v.content
  changeTransaction fun t => { t with created := t.created ++ [id] }
  stage (.put (.single id (some location) copied) none)

/-- Files the document somewhere else. -/
def runMoveDocument (ctx : Context) : Act Unit := do
  let location ← destination ctx
  changeRecord fun r => { r with location := some location }

/-- Files the document under another name in the same container. -/
def runRenameDocument (arguments : Arguments) : Act Unit := do
  let name ← require "new name" arguments.newName
  let h ← handle
  let some location := h.record.location | throw (.state (.notFiled h.id))
  requireVacant ⟨location.container, name⟩
  changeRecord fun r => { r with location := some ⟨location.container, name⟩ }

/-! ## Requests -/

/-- Files a request. A scheduled one has to have a date. -/
def runCreateRequest (arguments : Arguments) (kind : RequestKind) : Act Unit := do
  if kind.isScheduled then
    let _ ← require "date" arguments.date
  let user := (← handle).user
  let id ← Process.fresh .request
  let now ← Process.now
  let q : Request := ⟨id, kind, arguments.date, none, user, now⟩
  changeTransaction fun t => { t with request := some id }
  changeRecord fun r => { r with requests := r.requests ++ [q] }

/-- The request that was named, which has to exist. -/
def namedRequest (arguments : Arguments) : Act Request := do
  let id ← require "request id" arguments.request
  let h ← handle
  match h.record.request? id with
  | some q => return q
  | none => throw (.state (.requestMissing h.id id))

/-- Removes a request and fires the operation that carries it out. -/
def carryOut (fire : Operation → Act Unit) (q : Request) : Act Unit := do
  match Operation.resolving? q.kind with
  | none => throw (.state .requestRejected)
  | some op =>
      changeRecord fun r => r.dropRequest q.id
      fire op

/-- The scheduled kind of a request that can wait for its date. -/
def scheduledKind? : RequestKind → Option RequestKind
  | .publication => some .scheduledPublication
  | .depublication => some .scheduledDepublication
  | _ => none

/-- Accepts the request that was named: one for a later date is scheduled, any
other is carried out. -/
def runAcceptRequest (arguments : Arguments) (fire : Operation → Act Unit) : Act Unit := do
  let q ← namedRequest arguments
  let scheduled := if q.isDeferred arguments.now then scheduledKind? q.kind else none
  match scheduled with
  | some kind => changeRecord fun r => r.changeRequest q.id fun q => { q with kind := kind }
  | none => carryOut fire q

/-- Rejects the request that was named. -/
def runRejectRequest (arguments : Arguments) : Act Unit := do
  let q ← namedRequest arguments
  changeRecord fun r => r.changeRequest q.id fun q =>
    { q with kind := .rejected, reason := arguments.reason }

/-- Removes the request that was named. -/
def runCancelRequest (arguments : Arguments) : Act Unit := do
  let q ← namedRequest arguments
  changeRecord fun r => r.dropRequest q.id

/-- Carries out the scheduled request if its date has come. -/
def runScheduledRequest (arguments : Arguments) (fire : Operation → Act Unit) : Act Unit := do
  let h ← handle
  let some q := h.record.pending?.filter fun q => q.kind.isScheduled
    | throw (.state (.noScheduledRequest h.id))
  if !q.isDue arguments.now then throw (.state (.notDue q.kind q.id q.scheduledAt))
  carryOut fire q

/-! ## Versions -/

/-- The snapshot in force at the time that was given. -/
def namedSnapshot (arguments : Arguments) : Act Snapshot := do
  let t ← require "timestamp" arguments.timestamp
  let h ← handle
  match Snapshot.inForce? h.record.history t with
  | some s => return s
  | none => throw (.versionMissing h.id t)

/-- The time of a new snapshot: now, or a microsecond after the last snapshot
if that is no earlier than now. Past the end of the calendar there is none. -/
def snapshotTime (history : List Snapshot) (now : Instant) : Option Instant :=
  match history.getLast? with
  | none => some now
  | some last => if now ≤ last.timestamp then last.timestamp.nextMicrosecond? else some now

/-- Keeps the unpublished content in the history. -/
def runTakeVersion : Act Unit := do
  let content := (← requireVariant .unpublished).content
  let now ← Process.now
  let h ← handle
  match snapshotTime h.record.history now with
  | none => monadLift (Process.broken : Process Unit)
  | some t =>
      let s : Snapshot := ⟨t, Snapshot.nextName h.record.history, .empty, content⟩
      changeRecord fun r => { r with history := r.history ++ [s] }
      setResult (.ofSnapshot h.id s)

/-- Puts a kept content back into the unpublished variant. -/
def runRestoreVersion (arguments : Arguments) : Act Unit := do
  let s ← namedSnapshot arguments
  let v ← writeInto .unpublished s.content
  setResult (.ofVariant (← handle).id v)

/-- Puts a kept content into the variant that was given, of this document or of
another one. -/
def runRestoreVersionTo (arguments : Arguments) : Act Unit := do
  let s ← namedSnapshot arguments
  let target ← require "target" arguments.target
  let h ← handle
  if target.handle = h.id then
    let v ← writeInto target.stage s.content
    setResult (.ofVariant h.id v)
  else
    let some stored ← ofFlow (Flow.load target.handle) | throw (.handleMissing target.handle)
    let some v := stored.record.variants.get target.stage
      | throw (.state (.variantMissing target.handle target.stage))
    let written := v.withContent s.content h.user (← Process.now)
    setResult (.ofVariant target.handle written)
    stage (.put (stored.record.putVariant target.stage (some written)) (some stored.revision))

/-- Hands a snapshot back to the caller. -/
def runRetrieveVersion (arguments : Arguments) : Act Unit := do
  let s ← namedSnapshot arguments
  setResult (.ofSnapshot (← handle).id s)

/-! ## Running a task -/

/-- What a task does; `fire` fires an operation on the work in hand. -/
def run (ctx : Context) (fire : Operation → Act Unit) : Task → Act Unit
  | createVariant source target => runCreateVariant source target
  | removeVariant stage => changeRecord fun r => r.putVariant stage none
  | changeStage source target => runChangeStage source target
  | copyContent source target => runCopyContent source target
  | writeContent stage => runWriteContent ctx.arguments stage
  | claimDraft => runClaimDraft
  | releaseDraft => runReleaseDraft
  | returnVariant stage => runReturnVariant stage
  | deleteHandle => changeTransaction fun t => { t with deletes := true }
  | copyDocument => runCopyDocument ctx
  | moveDocument => runMoveDocument ctx
  | renameDocument => runRenameDocument ctx.arguments
  | createRequest kind => runCreateRequest ctx.arguments kind
  | acceptRequest => runAcceptRequest ctx.arguments fire
  | rejectRequest => runRejectRequest ctx.arguments
  | cancelRequest => runCancelRequest ctx.arguments
  | runScheduled => runScheduledRequest ctx.arguments fire
  | takeVersion => runTakeVersion
  | restoreVersion => runRestoreVersion ctx.arguments
  | restoreVersionTo => runRestoreVersionTo ctx.arguments
  | retrieveVersion => runRetrieveVersion ctx.arguments
  | fail failure => throw failure
  | Task.fire op => fire op

end Task

end Editorial
