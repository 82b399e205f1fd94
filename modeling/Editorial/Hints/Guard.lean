import Editorial.Handle

/-!
# Which operations a handle allows

The guard of an operation looks at which variants exist, who holds the draft,
which request is pending and whether the document is filed in a folder. A
request can be accepted, or run when its date has come, only if the operation
that carries it out would be allowed without the request.
-/

namespace Editorial

namespace Handle

/-- Whether no request is pending. -/
def isUndecided (h : Handle) : Bool := h.record.pending?.isNone

/-- Whether the document can be published, apart from pending requests. -/
def isPublishable (h : Handle) : Bool :=
  h.record.variants.has .unpublished && !h.record.variants.has .published

/-- The guard of the operations that carry requests out. It is the part of
`allows` that `canCarryOut` needs. -/
def allowsResolving (h : Handle) : RequestKind → Bool
  | .publication | .scheduledPublication => h.isPublishable && h.isUndecided
  | .depublication | .scheduledDepublication =>
      h.record.variants.has .published && h.isUndecided
  | .deletion => h.record.variants.any && h.isUndecided && !h.isHeld
  | .rejected => false

/-- Whether the request could be carried out, once it no longer is in the way. -/
def canCarryOut (h : Handle) (q : Request) : Bool :=
  { h with record := h.record.dropRequest q.id }.allowsResolving q.kind

/-- Whether the handle allows an operation to its user. -/
def allows (h : Handle) (op : Operation) : Bool :=
  h.record.variants.any &&
  match op with
  | .obtain => !h.isHeldByOther
  | .commit | .update => h.record.variants.has .draft && !h.isHeldByOther
  -- A draft that stands alone has nothing to fall back to.
  | .dispose =>
      h.record.variants.has .draft && h.record.variants.has .unpublished && !h.isHeldByOther
  | .unlock => h.isHeldByOther
  | .publish | .schedulePublish | .requestPublication => h.isPublishable && h.isUndecided
  | .depublish | .scheduleDepublish | .requestDepublication =>
      h.record.variants.has .published && h.isUndecided
  | .delete | .requestDeletion => h.isUndecided && !h.isHeld
  | .copy => h.record.location.isSome
  | .move | .rename => h.record.location.isSome && h.isUndecided && !h.isHeld
  | .acceptRequest =>
      h.record.pending?.any fun q => !q.kind.isScheduled && h.canCarryOut q
  | .rejectRequest => h.record.pending?.any fun q => !q.kind.isScheduled
  | .cancelRequest => !h.record.requests.isEmpty
  | .runScheduled =>
      h.record.pending?.any fun q => q.kind.isScheduled && h.canCarryOut q
  | .version | .restoreVersion | .restoreVersionTo => h.record.variants.has .unpublished
  | .listVersions => true
  | .retrieveVersion => !h.record.history.isEmpty

/-- A request can be carried out exactly if the operation for it is allowed
once the request is gone. -/
theorem canCarryOut_iff (h : Handle) (q : Request) :
    h.canCarryOut q = true ↔
      ∃ op, Operation.resolving? q.kind = some op ∧
        { h with record := h.record.dropRequest q.id }.allows op = true := by
  unfold canCarryOut
  generalize { h with record := h.record.dropRequest q.id } = h'
  have hany : ∀ stage, h'.record.variants.has stage = true → h'.record.variants.any = true :=
    fun stage hs => List.any_eq_true.2 ⟨stage, stage.mem_all, hs⟩
  cases hk : q.kind <;>
    simp only [Operation.resolving?, allowsResolving, allows, Option.some.injEq,
      exists_eq_left', Bool.and_eq_true, isPublishable, reduceCtorEq, false_and,
      exists_false, Bool.false_eq_true] <;>
    grind

end Handle

end Editorial
