import Editorial.Hints.Basic

/-!
# What hints reveal

Hints are shown to users who may not see the document, so it matters what can be told
from them. They are computed from the whole handle, and the hints for a request even from
a copy of the handle without that request. All that any guard looks at is the outline:
which variants there are, who holds the draft, whether the document is filed, the ids and
kinds of its requests in their order, and whether there is a history. Two handles with
one outline cannot be told apart by their hints.

The acting user is no part of the outline, and counts only as the holder of the draft or
as somebody else. The outline stays one when a request is taken off (`SameOutline.dropRequest`),
which carries the argument through the guards of acceptance.

## Main results

* `SameOutline.allows_eq` — handles with one outline have the same guards.
* `hints_reveal_outline` — they have the same hints.
-/

namespace Editorial

/-- What a request shows in an outline. -/
def Request.tag (q : Request) : String × RequestKind := (q.id, q.kind)

namespace Handle

/-- Two handles agree on which variants exist, on the holder of the draft, on being filed, on
the ids and kinds of the requests, and on having a history. -/
structure SameOutline (h h' : Handle) : Prop where
  variants : ∀ stage, h.record.variants.has stage = h'.record.variants.has stage
  holder : h.holder? = h'.holder?
  filed : h.record.location.isSome = h'.record.location.isSome
  requests : h.record.requests.map Request.tag = h'.record.requests.map Request.tag
  history : h.record.history.isEmpty = h'.record.history.isEmpty

/-- Whether the acting user holds the draft. -/
def IsOwn (h : Handle) : Prop := h.holder? = some h.user

namespace SameOutline

variable {h h' : Handle} {q q' : Request}

/-! ## The parts of a guard -/

theorem any_eq (ho : SameOutline h h') : h.record.variants.any = h'.record.variants.any := by
  have hhas : h.record.variants.has = h'.record.variants.has := funext ho.variants
  unfold Variants.any
  rw [hhas]

theorem isPublishable_eq (ho : SameOutline h h') : h.isPublishable = h'.isPublishable := by
  unfold isPublishable
  rw [ho.variants, ho.variants]

theorem isHeld_eq (ho : SameOutline h h') : h.isHeld = h'.isHeld := congrArg Option.isSome ho.holder

/-- Of the acting user it only counts whether it is the holder. -/
theorem isHeldByOther_eq (ho : SameOutline h h') (hown : h.IsOwn ↔ h'.IsOwn) :
    h.isHeldByOther = h'.isHeldByOther := by
  unfold IsOwn at hown
  unfold isHeldByOther
  rw [ho.holder] at hown ⊢
  cases hholder : h'.holder? with
  | none => rfl
  | some holder =>
      rw [hholder, Option.some.injEq, Option.some.injEq] at hown
      exact decide_eq_decide.2 (not_congr hown)

/-- The pending requests are the same but for what the outline leaves out. -/
theorem pending?_eq (ho : SameOutline h h') :
    h.record.pending?.map Request.tag = h'.record.pending?.map Request.tag := by
  have hfind (r : Record) : r.pending?.map Request.tag =
      (r.requests.map Request.tag).find? fun tag => tag.2.isPending := by
    rw [List.find?_map]
    rfl
  rw [hfind, hfind, ho.requests]

theorem isUndecided_eq (ho : SameOutline h h') : h.isUndecided = h'.isUndecided := by
  have hpending := congrArg Option.isNone ho.pending?_eq
  rwa [Option.isNone_map, Option.isNone_map] at hpending

/-- What can be asked of the pending request, beside its tag, is the same. -/
theorem any_pending?_eq (ho : SameOutline h h') {p p' : Request → Bool}
    (hp : ∀ q q' : Request, q.tag = q'.tag → p q = p' q') :
    h.record.pending?.any p = h'.record.pending?.any p' := by
  have hpending := ho.pending?_eq
  rcases hq : h.record.pending? with _ | q <;> rcases hq' : h'.record.pending? with _ | q' <;>
    rw [hq, hq'] at hpending
  · rfl
  · cases hpending
  · cases hpending
  · exact hp q q' (Option.some.inj hpending)

/-! ## Without a request -/

/-- Taking the requests of one id off leaves handles with one outline. -/
theorem dropRequest (ho : SameOutline h h') (id : String) :
    SameOutline { h with record := h.record.dropRequest id }
      { h' with record := h'.record.dropRequest id } where
  variants := ho.variants
  holder := ho.holder
  filed := ho.filed
  history := ho.history
  requests := by
    have hfilter (r : Record) : (r.dropRequest id).requests.map Request.tag =
        (r.requests.map Request.tag).filter fun tag => tag.1 ≠ id := by
      rw [List.filter_map]
      rfl
    show (h.record.dropRequest id).requests.map Request.tag =
      (h'.record.dropRequest id).requests.map Request.tag
    rw [hfilter, hfilter, ho.requests]

theorem allowsResolving_eq (ho : SameOutline h h') (kind : RequestKind) :
    h.allowsResolving kind = h'.allowsResolving kind := by
  cases kind <;>
    simp only [allowsResolving, ho.isPublishable_eq, ho.isUndecided_eq, ho.variants, ho.any_eq,
      ho.isHeld_eq]

/-- Of a request it only counts what the outline has of it. -/
theorem canCarryOut_eq (ho : SameOutline h h') (hq : q.tag = q'.tag) :
    h.canCarryOut q = h'.canCarryOut q' := by
  obtain ⟨hid, hkind⟩ := Prod.mk.inj hq
  unfold canCarryOut
  rw [hid, hkind]
  exact (ho.dropRequest q'.id).allowsResolving_eq q'.kind

/-! ## Guards and hints -/

/-- Handles with one outline have the same guards. -/
theorem allows_eq (ho : SameOutline h h') (hown : h.IsOwn ↔ h'.IsOwn) (op : Operation) :
    h.allows op = h'.allows op := by
  have haccept : (h.record.pending?.any fun q => !q.kind.isScheduled && h.canCarryOut q) =
      h'.record.pending?.any fun q => !q.kind.isScheduled && h'.canCarryOut q :=
    ho.any_pending?_eq fun q q' hq => by
      rw [(Prod.mk.inj hq).2, ho.canCarryOut_eq hq]
  have hreject : (h.record.pending?.any fun q => !q.kind.isScheduled) =
      h'.record.pending?.any fun q => !q.kind.isScheduled :=
    ho.any_pending?_eq fun q q' hq => by rw [(Prod.mk.inj hq).2]
  have hrun : (h.record.pending?.any fun q => q.kind.isScheduled && h.canCarryOut q) =
      h'.record.pending?.any fun q => q.kind.isScheduled && h'.canCarryOut q :=
    ho.any_pending?_eq fun q q' hq => by
      rw [(Prod.mk.inj hq).2, ho.canCarryOut_eq hq]
  have hrequests : h.record.requests.isEmpty = h'.record.requests.isEmpty := by
    have hempty := congrArg List.isEmpty ho.requests
    rwa [List.isEmpty_map, List.isEmpty_map] at hempty
  unfold allows
  rw [ho.any_eq]
  cases op <;>
    simp only [ho.isHeldByOther_eq hown, ho.variants, ho.isPublishable_eq, ho.isUndecided_eq,
      ho.isHeld_eq, ho.filed, ho.history, haccept, hreject, hrun, hrequests]

theorem ofRequest_eq (ho : SameOutline h h') (hq : q.tag = q'.tag) :
    Hints.ofRequest h q = Hints.ofRequest h' q' := by
  obtain ⟨hid, hkind⟩ := Prod.mk.inj hq
  have hcurrent : (h.record.pending?.any fun p => p.id = q.id) =
      h'.record.pending?.any fun p => p.id = q'.id :=
    ho.any_pending?_eq fun p p' hp => by rw [(Prod.mk.inj hp).1, hid]
  unfold Hints.ofRequest
  rw [hcurrent, hkind, ho.canCarryOut_eq hq]

/-- The actions on requests are listed in the order of the outline. -/
theorem requests_eq (ho : SameOutline h h') : Hints.requests h = Hints.requests h' := by
  -- The induction is on the requests alone: the actions on each go by the whole handles.
  have hlisted : ∀ qs qs' : List Request, qs.map Request.tag = qs'.map Request.tag →
      qs.map (fun q => (q.id, Hints.ofRequest h q)) =
        qs'.map fun q => (q.id, Hints.ofRequest h' q) := by
    intro qs
    induction qs with
    | nil =>
        intro qs' hqs
        rw [List.map_nil, List.nil_eq, List.map_eq_nil_iff] at hqs
        rw [hqs]
        rfl
    | cons q rest ih =>
        intro qs' hqs
        obtain ⟨q', rest', rfl, hq, hrest⟩ := List.map_eq_cons_iff.1 hqs.symm
        rw [List.map_cons, List.map_cons, ih rest' hrest.symm, ho.ofRequest_eq hq.symm,
          (Prod.mk.inj hq).1]
  unfold Hints.requests
  rw [hlisted _ _ ho.requests]

theorem flags_eq (ho : SameOutline h h') (hown : h.IsOwn ↔ h'.IsOwn) :
    Hints.flags h = Hints.flags h' := by
  unfold Hints.flags
  simp only [ho.allows_eq hown]

end SameOutline

end Handle

/-- The hints of two handles with one outline are equal, for users that both hold the draft
or both do not; if nobody holds it, for any users. -/
theorem hints_reveal_outline (h h' : Handle) (ho : h.SameOutline h') :
    ((h.IsOwn ↔ h'.IsOwn) → Hints.ofHandle h = Hints.ofHandle h') ∧
      (h.holder? = none → ∀ user user',
        Hints.ofHandle { h with user := user } = Hints.ofHandle { h' with user := user' }) := by
  have hhints : ∀ {h h' : Handle}, h.SameOutline h' → (h.IsOwn ↔ h'.IsOwn) →
      Hints.ofHandle h = Hints.ofHandle h' := by
    intro h h' ho hown
    have hlive : h.isLive = h'.isLive := ho.variants .published
    have hpreview : h.hasPreview = h'.hasPreview := ho.variants .unpublished
    unfold Hints.ofHandle
    rw [ho.flags_eq hown, ho.requests_eq, ho.holder, hlive, hpreview]
  refine ⟨hhints ho, fun hnone user user' => ?_⟩
  refine hhints ⟨ho.variants, ho.holder, ho.filed, ho.requests, ho.history⟩ ?_
  have hfree : ∀ {h : Handle}, h.holder? = none → ¬ h.IsOwn := fun {h} hn hown => by
    rw [Handle.IsOwn, hn] at hown
    cases hown
  exact iff_of_false (hfree hnone) (hfree (ho.holder.symm.trans hnone))

/-- Two documents with different texts, places, authors and dates, in the hands of `"ann"`, as
`"bob"` and `"eve"` see them. Both have a rejected request and one for publication. -/
theorem hints_reveal_outline_held :
    let later : Instant := ⟨9, 0, by decide, by decide, by decide⟩
    let written : Payload := Payload.ofJson (.string "text")
    let draft (id user : String) (now : Instant) (content : Payload) : Variant :=
      { Variant.make id .draft content user now with holder := some "ann" }
    let file (kind : RequestKind) (id user : String) (now : Instant) : Request :=
      ⟨id, kind, none, none, user, now⟩
    let place (container name : String) : Location := ⟨container, name⟩
    let r : Record :=
      { id := "d", location := some (place "news" "one"),
        variants := { draft := some (draft "v" "ann" .epoch .null) },
        requests := [file .rejected "a" "bob" .epoch, file .publication "b" "eve" .epoch],
        history := [⟨.epoch, "1.0", .empty, .null⟩] }
    let r' : Record :=
      { id := "e", location := some (place "press" "two"),
        variants := { draft := some (draft "w" "eve" later written) },
        requests := [file .rejected "a" "ann" later, file .publication "b" "ann" later],
        history := [⟨.epoch, "first", Names.ofList ["a"], written⟩,
          ⟨later, "1.1", .empty, .null⟩] }
    let h : Handle := ⟨r, 1, "bob"⟩
    let h' : Handle := ⟨r', 7, "eve"⟩
    h.SameOutline h' ∧ (h.IsOwn ↔ h'.IsOwn) ∧ Hints.ofHandle h = Hints.ofHandle h' := by
  intro later written draft file place r r' h h'
  have houtline : h.SameOutline h' :=
    ⟨fun stage => by cases stage <;> rfl, rfl, rfl, rfl, rfl⟩
  have hown : h.IsOwn ↔ h'.IsOwn :=
    iff_of_false (by unfold Handle.IsOwn; decide) (by unfold Handle.IsOwn; decide)
  exact ⟨houtline, hown, (hints_reveal_outline h h' houtline).1 hown⟩

end Editorial
