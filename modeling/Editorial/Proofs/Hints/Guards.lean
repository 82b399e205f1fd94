import Editorial.Proofs.Hints.Allows

/-!
# Hints and guards tell the same

A caller asks the hints, the pipeline's guard looks at the handle. For an operation
on the document as a whole both give one answer, and `allows_eq` says so. A guard
does not know which request is meant: it lets an operation on requests pass if it
finds a request the operation could be about. The hints, which do know, allow it for
that request and for no other. So the guard passes exactly if some id is allowed.

Two things are asked of the handle. Requests are told apart by their ids, so these
have to differ. And the document must have a variant: without one every guard is
shut, while the hints still list each request as one that can be cancelled.

## Main results

* `hints_tell_guards` — the hints of a handle allow what its guards allow.
-/

namespace Editorial

namespace Handle

variable {h : Handle}

/-! ## The guards of the operations on requests -/

/-- The guard of acceptance passes for the pending request, if nothing else keeps it
from being carried out. -/
theorem allows_acceptRequest_iff (hany : h.record.variants.any = true) :
    h.allows .acceptRequest = true ↔
      ∃ q, h.record.pending? = some q ∧ q.kind.isScheduled = false ∧ h.canCarryOut q = true := by
  simp only [allows, hany, Bool.true_and, Option.any_eq_true, Bool.and_eq_true,
    Bool.not_eq_true']

theorem allows_rejectRequest_iff (hany : h.record.variants.any = true) :
    h.allows .rejectRequest = true ↔
      ∃ q, h.record.pending? = some q ∧ q.kind.isScheduled = false := by
  simp only [allows, hany, Bool.true_and, Option.any_eq_true, Bool.not_eq_true']

theorem allows_cancelRequest_iff (hany : h.record.variants.any = true) :
    h.allows .cancelRequest = true ↔ ∃ q, q ∈ h.record.requests := by
  simp only [allows, hany, Bool.true_and, Bool.not_eq_true', List.isEmpty_eq_false_iff_exists_mem]

end Handle

namespace Hints

variable {h : Handle}

/-! ## The hints for a request -/

/-- Accepting and rejecting are allowed for the pending request, and only while the
guard passes. -/
theorem allows_deciding_iff (hany : h.record.variants.any = true)
    (hids : (h.record.requests.map Request.id).Nodup) {op : Operation}
    (hop : op = .acceptRequest ∨ op = .rejectRequest) (id : String) :
    (ofHandle h).allows op (some id) = true ↔
      (∃ q, h.record.pending? = some q ∧ q.id = id) ∧ h.allows op = true := by
  rcases hop with rfl | rfl
  · rw [allows_acceptRequest_iff hids, Handle.allows_acceptRequest_iff hany]
    constructor
    · rintro ⟨q, hq, hid, hwaits, hcan⟩
      exact ⟨⟨q, hq, hid⟩, q, hq, hwaits, hcan⟩
    · rintro ⟨⟨q, hq, hid⟩, q', hq', hwaits, hcan⟩
      cases hq.symm.trans hq'
      exact ⟨q, hq, hid, hwaits, hcan⟩
  · rw [allows_rejectRequest_iff hids, Handle.allows_rejectRequest_iff hany]
    constructor
    · rintro ⟨q, hq, hid, hwaits⟩
      exact ⟨⟨q, hq, hid⟩, q, hq, hwaits⟩
    · rintro ⟨⟨q, hq, hid⟩, q', hq', hwaits⟩
      cases hq.symm.trans hq'
      exact ⟨q, hq, hid, hwaits⟩

/-- A guard that passes has seen a request to decide about. -/
theorem exists_pending_of_allows (hany : h.record.variants.any = true) {op : Operation}
    (hop : op = .acceptRequest ∨ op = .rejectRequest) (ha : h.allows op = true) :
    ∃ q, h.record.pending? = some q := by
  rcases hop with rfl | rfl
  · obtain ⟨q, hq, -⟩ := (Handle.allows_acceptRequest_iff hany).1 ha
    exact ⟨q, hq⟩
  · obtain ⟨q, hq, -⟩ := (Handle.allows_rejectRequest_iff hany).1 ha
    exact ⟨q, hq⟩

/-- The guard of an operation on requests passes exactly if the hints allow the
operation for some request. -/
theorem allows_iff_exists_id (hany : h.record.variants.any = true)
    (hids : (h.record.requests.map Request.id).Nodup) {op : Operation}
    (hop : op.isRequestScoped = true) :
    h.allows op = true ↔ ∃ id, (ofHandle h).allows op (some id) = true := by
  by_cases hcancel : op = .cancelRequest
  · subst hcancel
    simp only [Handle.allows_cancelRequest_iff hany, allows_cancelRequest_iff hids]
    constructor
    · rintro ⟨q, hq⟩
      exact ⟨q.id, q, hq, rfl⟩
    · rintro ⟨_, q, hq, _⟩
      exact ⟨q, hq⟩
  · have hdeciding : op = .acceptRequest ∨ op = .rejectRequest := by
      simpa [Operation.isRequestScoped, hcancel] using hop
    simp only [allows_deciding_iff hany hids hdeciding]
    constructor
    · intro ha
      obtain ⟨q, hq⟩ := exists_pending_of_allows hany hdeciding ha
      exact ⟨q.id, ⟨q, hq, rfl⟩, ha⟩
    · rintro ⟨_, _, ha⟩
      exact ha

end Hints

/-! ## Hints in the place of guards -/

/-- What hints tell about the guards of a handle, asked with the arguments of a call. -/
structure Hints.TellGuards (hints : Hints) (h : Handle) : Prop where
  whole : ∀ (op : Operation) (arguments : Arguments), op.isRequestScoped = false →
    hints.allows op arguments.request = h.allows op
  deciding : ∀ (op : Operation) (arguments : Arguments), op = .acceptRequest ∨ op = .rejectRequest →
    (hints.allows op arguments.request = true ↔
      (∃ q, h.record.pending? = some q ∧ arguments.request = some q.id) ∧ h.allows op = true)
  cancelling : ∀ arguments : Arguments, hints.allows .cancelRequest arguments.request = true ↔
    ∃ q ∈ h.record.requests, arguments.request = some q.id
  requested : ∀ op : Operation, op.isRequestScoped = true →
    (h.allows op = true ↔ ∃ id, hints.allows op (some id) = true)

/-- The hints of a handle allow what its guards allow, and tell for which request. -/
theorem hints_tell_guards (h : Handle) (hany : h.record.variants.any = true)
    (hids : (h.record.requests.map Request.id).Nodup) : (Hints.ofHandle h).TellGuards h where
  whole _ arguments hop := Hints.allows_eq h hop arguments.request
  deciding op arguments hop := by
    cases arguments.request with
    | none =>
        have hscoped : op.isRequestScoped = true := by rcases hop with rfl | rfl <;> rfl
        rw [Hints.allows_none h hscoped]
        simp
    | some id =>
        rw [Hints.allows_deciding_iff hany hids hop]
        simp only [Option.some.injEq, eq_comm]
  cancelling arguments := by
    cases arguments.request with
    | none =>
        rw [Hints.allows_none h rfl]
        simp
    | some id =>
        rw [Hints.allows_cancelRequest_iff hids]
        simp only [Option.some.injEq, eq_comm]
  requested _ hop := Hints.allows_iff_exists_id hany hids hop

/-- The hints of a document with a rejected, a pending and a scheduled request. -/
theorem hints_tell_guards_requests :
    let v := Variant.make "v" .unpublished .null "ann" .epoch
    let file (id : String) (kind : RequestKind) : Request := ⟨id, kind, none, none, "bob", .epoch⟩
    let requests := [file "a" .rejected, file "b" .publication, file "c" .scheduledPublication]
    let h : Handle := ⟨{ Record.single "d" none v with requests := requests }, 1, "ann"⟩
    h.record.variants.any = true ∧ (h.record.requests.map Request.id).Nodup ∧
      (Hints.ofHandle h).TellGuards h := by
  intro v file requests h
  have hany : h.record.variants.any = true := rfl
  have hids : (h.record.requests.map Request.id).Nodup := by decide
  exact ⟨hany, hids, hints_tell_guards h hany hids⟩

end Editorial
