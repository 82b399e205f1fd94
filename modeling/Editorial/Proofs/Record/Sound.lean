import Editorial.Handle

/-!
# What keeps a record sound

A sound record has four parts that have little to do with one another: where
its variants are filed, which of them exist, how many requests are pending, and
the order of its history. A change to a record touches one of them, so there is
one lemma for each.
-/

namespace Editorial

/-! ## Variants -/

namespace Variants

/-- Every variant is in the place of its stage. -/
def Filed (vs : Variants) : Prop := ∀ stage v, vs.get stage = some v → v.stage = stage

/-- There is a variant, and a draft over a published one has an unpublished one
between. -/
def Backed (vs : Variants) : Prop :=
  (vs.has .draft ∨ vs.has .unpublished ∨ vs.has .published) ∧
    (vs.has .draft → vs.has .published → vs.has .unpublished)

theorem Filed.put {vs : Variants} {stage : Stage} {v? : Option Variant} (hf : vs.Filed)
    (hv : ∀ v, v? = some v → v.stage = stage) : (vs.put stage v?).Filed := by
  intro other v hget
  rw [get_put] at hget
  by_cases h : other = stage
  · rw [if_pos h] at hget
    rw [h]
    exact hv v hget
  · rw [if_neg h] at hget
    exact hf other v hget

theorem has_put (vs : Variants) (stage other : Stage) (v? : Option Variant) :
    (vs.put stage v?).has other = if other = stage then v?.isSome else vs.has other := by
  unfold has
  rw [get_put]
  split <;> rfl

/-- Writing over a variant leaves which of them exist. -/
theorem Backed.put_over {vs : Variants} {stage : Stage} (hb : vs.Backed) (v : Variant)
    (hv : vs.has stage = true) : (vs.put stage (some v)).Backed := by
  have hhas : ∀ other, (vs.put stage (some v)).has other = vs.has other := by
    intro other
    rw [has_put]
    by_cases h : other = stage
    · rw [if_pos h, h, hv]
      rfl
    · rw [if_neg h]
  unfold Backed
  simp only [hhas]
  exact hb

end Variants

/-! ## Records -/

namespace Record

theorem pending?_isPending {r : Record} {q : Request} (hq : r.pending? = some q) :
    q.kind.isPending = true := by
  simpa using List.find?_some hq

/-- A status is valid exactly if its variants stand on one another: what is
pending was not rejected. -/
theorem isValid_status_iff (r : Record) : r.status.isValid = true ↔ r.variants.Backed := by
  have hrequest : r.status.request ≠ some .rejected := by
    intro h
    obtain ⟨q, hq, hkind⟩ := Option.map_eq_some_iff.1 h
    have hpending := pending?_isPending hq
    rw [hkind] at hpending
    cases hpending
  unfold Status.isValid Variants.Backed
  rw [decide_eq_true hrequest]
  simp only [status]
  cases r.variants.has .draft <;> cases r.variants.has .unpublished <;>
    cases r.variants.has .published <;> simp

theorem isSound_iff (r : Record) :
    r.IsSound ↔ r.variants.Filed ∧ r.variants.Backed ∧ r.pendingRequests.length ≤ 1 ∧
      Snapshot.Ordered r.history := by
  constructor
  · intro h
    exact ⟨h.filed, (isValid_status_iff r).1 h.status, h.pending, h.history⟩
  · rintro ⟨hfiled, hbacked, hpending, hhistory⟩
    exact ⟨hfiled, (isValid_status_iff r).2 hbacked, hpending, hhistory⟩

namespace IsSound

variable {r : Record}

theorem backed (hs : r.IsSound) : r.variants.Backed := (isValid_status_iff r).1 hs.status

theorem withVariants (hs : r.IsSound) {vs : Variants} (hfiled : vs.Filed) (hbacked : vs.Backed) :
    ({ r with variants := vs } : Record).IsSound :=
  (isSound_iff _).2 ⟨hfiled, hbacked, hs.pending, hs.history⟩

theorem withRequests (hs : r.IsSound) {qs : List Request}
    (hqs : (qs.filter fun q => q.kind.isPending).length ≤ 1) :
    ({ r with requests := qs } : Record).IsSound :=
  (isSound_iff _).2 ⟨hs.filed, hs.backed, hqs, hs.history⟩

theorem withHistory (hs : r.IsSound) {history : List Snapshot}
    (hordered : Snapshot.Ordered history) : ({ r with history := history } : Record).IsSound :=
  (isSound_iff _).2 ⟨hs.filed, hs.backed, hs.pending, hordered⟩

theorem withLocation (hs : r.IsSound) (location : Option Location) :
    ({ r with location := location } : Record).IsSound :=
  (isSound_iff _).2 ⟨hs.filed, hs.backed, hs.pending, hs.history⟩

theorem putVariant (hs : r.IsSound) {stage : Stage} {v? : Option Variant}
    (hv : ∀ v, v? = some v → v.stage = stage) (hbacked : (r.variants.put stage v?).Backed) :
    (r.putVariant stage v?).IsSound :=
  hs.withVariants (Variants.Filed.put hs.filed hv) hbacked

theorem putTwo (hs : r.IsSound) {stage stage' : Stage} {v? v'? : Option Variant}
    (hv : ∀ v, v? = some v → v.stage = stage) (hv' : ∀ v, v'? = some v → v.stage = stage')
    (hbacked : ((r.variants.put stage v?).put stage' v'?).Backed) :
    ((r.putVariant stage v?).putVariant stage' v'?).IsSound :=
  hs.withVariants (Variants.Filed.put (Variants.Filed.put hs.filed hv) hv') hbacked

/-- A variant may be written over by one of the same stage. -/
theorem putOver (hs : r.IsSound) {stage : Stage} {old new : Variant}
    (hold : r.variants.get stage = some old) (hnew : new.stage = old.stage) :
    (r.putVariant stage (some new)).IsSound := by
  have hstage : ∀ v, some new = some v → v.stage = stage := by
    intro v hv
    cases hv
    rw [hnew]
    exact hs.filed stage old hold
  have hhas : r.variants.has stage = true := by rw [Variants.has, hold]; rfl
  exact hs.putVariant hstage (hs.backed.put_over new hhas)

end IsSound

/-- A new record is sound if its only variant is no draft over nothing. -/
theorem isSound_single (id : String) (location : Option Location) (v : Variant) :
    (single id location v).IsSound := by
  refine (isSound_iff _).2 ⟨?_, ?_, Nat.zero_le 1, trivial⟩
  · apply Variants.Filed.put
    · intro stage v' hv'
      cases stage <;> cases hv'
    · intro v' hv'
      cases hv'
      rfl
  · unfold Variants.Backed
    simp only [single, Variants.has_put]
    cases v.stage <;> simp [Variants.has, Variants.empty, Variants.get]

end Record

/-! ## Requests -/

namespace Record

theorem id_of_request? {r : Record} {id : String} {q : Request} (hq : r.request? id = some q) :
    q.id = id := by
  simpa using List.find?_some hq

/-- Dropping requests adds no pending one. -/
theorem length_pending_dropRequest_le (r : Record) (id : String) :
    (r.dropRequest id).pendingRequests.length ≤ r.pendingRequests.length := by
  unfold pendingRequests dropRequest
  exact (List.filter_sublist.filter _).length_le

theorem length_pending_go_le {id : String} {f : Request → Request} {qs : List Request}
    (hf : ∀ q, qs.find? (fun q => q.id = id) = some q →
      (f q).kind.isPending = true → q.kind.isPending = true) :
    ((changeRequest.go id f qs).filter fun q => q.kind.isPending).length ≤
      (qs.filter fun q => q.kind.isPending).length := by
  induction qs with
  | nil => exact Nat.le_refl _
  | cons q rest ih =>
      unfold changeRequest.go
      by_cases hid : q.id = id
      · have hq := hf q (by simp [hid])
        rw [if_pos hid]
        cases hp : (f q).kind.isPending with
        | false =>
            rw [List.filter_cons_of_neg (by simp [hp])]
            exact ((List.sublist_cons_self q rest).filter _).length_le
        | true =>
            rw [List.filter_cons_of_pos (by simp [hp]), List.filter_cons_of_pos (by simp [hq hp])]
            exact Nat.le_refl _
      · have hrest := ih (by simpa [hid] using hf)
        rw [if_neg hid]
        cases hp : q.kind.isPending with
        | false =>
            rw [List.filter_cons_of_neg (by simp [hp]), List.filter_cons_of_neg (by simp [hp])]
            exact hrest
        | true =>
            rw [List.filter_cons_of_pos (by simp [hp]), List.filter_cons_of_pos (by simp [hp])]
            exact Nat.succ_le_succ hrest

/-- A request that is changed adds no pending one if it was pending itself. -/
theorem length_pending_changeRequest_le {r : Record} {id : String} {f : Request → Request}
    (hf : ∀ q, r.request? id = some q → (f q).kind.isPending = true → q.kind.isPending = true) :
    (r.changeRequest id f).pendingRequests.length ≤ r.pendingRequests.length :=
  length_pending_go_le hf

theorem IsSound.dropRequest {r : Record} (hs : r.IsSound) (id : String) :
    (r.dropRequest id).IsSound :=
  hs.withRequests (Nat.le_trans (length_pending_dropRequest_le r id) hs.pending)

theorem IsSound.changeRequest {r : Record} (hs : r.IsSound) {id : String} {f : Request → Request}
    (hf : ∀ q, r.request? id = some q → (f q).kind.isPending = true → q.kind.isPending = true) :
    (r.changeRequest id f).IsSound :=
  hs.withRequests (Nat.le_trans (length_pending_changeRequest_le hf) hs.pending)

/-- A request may be filed while none is pending. -/
theorem IsSound.fileRequest {r : Record} (hs : r.IsSound) (hnone : r.pending? = none)
    (q : Request) : ({ r with requests := r.requests ++ [q] } : Record).IsSound := by
  apply hs.withRequests
  have hempty : r.requests.filter (fun q => q.kind.isPending) = [] := by
    rw [List.filter_eq_nil_iff]
    exact List.find?_eq_none.1 hnone
  rw [List.filter_append, hempty, List.nil_append]
  exact List.length_filter_le _ _

end Record

/-! ## History -/

/-- A snapshot later than the last one may be added. -/
theorem Snapshot.Ordered.concat {history : List Snapshot} {s : Snapshot} (ho : Ordered history)
    (hlast : ∀ last, history.getLast? = some last → last.timestamp < s.timestamp) :
    Ordered (history ++ [s]) := by
  induction history with
  | nil => trivial
  | cons a rest ih =>
      cases rest with
      | nil => exact ⟨hlast a rfl, trivial⟩
      | cons b rest =>
          refine ⟨ho.1, ih ho.2 ?_⟩
          intro last hl
          exact hlast last (by rw [List.getLast?_cons_cons]; exact hl)

end Editorial
