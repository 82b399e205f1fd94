import Editorial.Failure

/-!
# Handles

A handle is a record in the hands of a user: the record as it was loaded, the
revision it was loaded at, and who acts on it.

`check` is what a record has to pass before it is stored. `IsSound` says the
same as a proposition.

## Main results

* `check_eq_ok_iff` — a handle passes the checks exactly if its record is sound.
-/

namespace Editorial

/-- A loaded record and the user who acts on it. -/
structure Handle where
  record : Record
  /-- The revision the record was loaded at. -/
  revision : Nat
  user : String
deriving DecidableEq

namespace Handle

/-- The id of the record. -/
def id (h : Handle) : String := h.record.id

/-- The variant in the place of `stage`. -/
def variant? (h : Handle) (stage : Stage) : Option Variant := h.record.variants.get stage

/-- The user who holds the draft. -/
def holder? (h : Handle) : Option String := do (← h.variant? .draft).holder

/-- Whether somebody holds the draft. -/
def isHeld (h : Handle) : Bool := h.holder?.isSome

/-- Whether somebody other than the acting user holds the draft. -/
def isHeldByOther (h : Handle) : Bool := h.holder?.any fun holder => holder ≠ h.user

/-- Whether readers can see the document. -/
def isLive (h : Handle) : Bool := h.record.variants.has .published

/-- Whether there is something to preview. -/
def hasPreview (h : Handle) : Bool := h.record.variants.has .unpublished

end Handle

/-! ## Sound records -/

namespace Record

/-- The requests that are pending. -/
def pendingRequests (r : Record) : List Request :=
  r.requests.filter fun q => q.kind.isPending

/-- The first variant whose place is not the stage it claims. -/
def misfiled? (r : Record) : Option (Stage × Variant) :=
  r.variants.toList.find? fun entry => entry.2.stage ≠ entry.1

/-- What every stored record keeps: each variant is in the place of its stage,
the status is valid, at most one request is pending, and the snapshots of the
history were taken one after another. -/
structure IsSound (r : Record) : Prop where
  filed : ∀ stage v, r.variants.get stage = some v → v.stage = stage
  status : r.status.isValid = true
  pending : r.pendingRequests.length ≤ 1
  history : Snapshot.Ordered r.history

/-- Fails at the first thing that keeps the record from being stored. -/
def check (r : Record) : Except Failure Unit :=
  match r.misfiled? with
  | some (place, v) => throw (.state (.misfiled v.id place v.stage))
  | none =>
    if !r.status.isValid then throw (.state (.invalidStatus r.id r.status))
    else if 1 < r.pendingRequests.length then
      throw (.state (.manyPending r.id r.pendingRequests.length))
    else if ¬ Snapshot.Ordered r.history then throw (.state (.historyUnordered r.id))
    else pure ()

theorem misfiled?_eq_none_iff (r : Record) :
    r.misfiled? = none ↔ ∀ stage v, r.variants.get stage = some v → v.stage = stage := by
  simp only [misfiled?, List.find?_eq_none, Prod.forall, Variants.mem_toList_iff]
  simp

/-- A record passes the checks exactly if it is sound. -/
theorem check_eq_ok_iff (r : Record) : r.check = .ok () ↔ r.IsSound := by
  unfold check
  constructor
  · intro h
    split at h
    · cases h
    · rename_i hfiled
      split at h
      · cases h
      · split at h
        · cases h
        · split at h
          · cases h
          · rename_i h₁ h₂ h₃
            exact ⟨(misfiled?_eq_none_iff r).1 hfiled, by simpa using h₁, by omega,
              Decidable.not_not.1 h₃⟩
  · intro h
    rw [(misfiled?_eq_none_iff r).2 h.filed]
    have := h.pending
    simp only [h.status, Bool.not_true, Bool.false_eq_true, if_false,
      show ¬ 1 < r.pendingRequests.length by omega, h.history]
    rfl

end Record

end Editorial
