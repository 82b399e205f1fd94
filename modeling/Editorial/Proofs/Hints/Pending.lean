import Editorial.Proofs.Hints.Agreement
import Editorial.Proofs.Store.Commit

/-!
# Pending requests stay executable

The checks of a record count its pending requests but do not relate them to its
variants. The relation holds all the same, since it does when a request is filed
and no operation that is allowed while a request is pending breaks it: what
would, such as publishing, needs that nothing is pending. A request that fits
the variants can be carried out.

## Main results

* `Effect.fits` — an operation leaves requests that fit.
* `Effect.ids` — it leaves the ids of the requests or adds a new one.
* `allows_runScheduled_of_fits` and `allows_acceptRequest_of_fits` — a request
  that fits can be carried out.
-/

namespace Editorial

/-! ## Requests that fit -/

/-- What a pending request asks for can be done with these variants, and a
scheduled request has a date. -/
structure Request.Fits (vs : Variants) (q : Request) : Prop where
  publish : q.kind = .publication ∨ q.kind = .scheduledPublication →
    vs.has .unpublished = true ∧ vs.has .published = false
  depublish : q.kind = .depublication ∨ q.kind = .scheduledDepublication →
    vs.has .published = true
  date : q.kind.isScheduled = true → q.scheduledAt.isSome = true

/-- Every request of the record fits its variants. -/
def Record.Fits (r : Record) : Prop := ∀ q ∈ r.requests, q.Fits r.variants

namespace Record

variable {r : Record}

/-- A rejected request always fits. -/
theorem fits_of_isPending_eq_false {q : Request} (hq : q.kind.isPending = false)
    (vs : Variants) : q.Fits vs := by
  have hkind : q.kind = .rejected := by simpa [RequestKind.isPending] using hq
  constructor
  · rintro (h | h) <;> rw [hkind] at h <;> cases h
  · rintro (h | h) <;> rw [hkind] at h <;> cases h
  · intro h
    rw [hkind] at h
    cases h

/-- While nothing is pending the variants may become any others. -/
theorem fits_withVariants_of_undecided (hnone : r.pending? = none) (vs : Variants) :
    ({ r with variants := vs } : Record).Fits := by
  intro q hq
  apply fits_of_isPending_eq_false
  simpa using List.find?_eq_none.1 hnone q hq

namespace Fits

/-- Otherwise they may become others that leave what can be published and what
can be taken offline. -/
theorem withVariants (hf : r.Fits) {vs : Variants}
    (hpublish : r.variants.has .unpublished = true → r.variants.has .published = false →
      vs.has .unpublished = true ∧ vs.has .published = false)
    (hdepublish : r.variants.has .published = true → vs.has .published = true) :
    ({ r with variants := vs } : Record).Fits := by
  intro q hq
  have hfits := hf q hq
  refine ⟨fun hkind => ?_, fun hkind => hdepublish (hfits.depublish hkind), hfits.date⟩
  obtain ⟨hu, hp⟩ := hfits.publish hkind
  exact hpublish hu hp

/-- They may become others that leave which of the two exist. -/
theorem withVariants_of_has (hf : r.Fits) {vs : Variants}
    (hu : vs.has .unpublished = r.variants.has .unpublished)
    (hp : vs.has .published = r.variants.has .published) :
    ({ r with variants := vs } : Record).Fits := by
  refine hf.withVariants (fun hu' hp' => ?_) fun hp' => ?_
  · rw [hu, hp]
    exact ⟨hu', hp'⟩
  · rw [hp]
    exact hp'

/-- A variant may be written over. -/
theorem putOver (hf : r.Fits) {stage : Stage} {old : Variant}
    (hold : r.variants.get stage = some old) (new : Variant) :
    (r.putVariant stage (some new)).Fits := by
  have hhas : ∀ other, (r.variants.put stage (some new)).has other = r.variants.has other := by
    intro other
    rw [Variants.has_put]
    by_cases h : other = stage
    · rw [if_pos h, h, Variants.has, hold]
      rfl
    · rw [if_neg h]
  exact hf.withVariants_of_has (hhas .unpublished) (hhas .published)

theorem withRequests (hf : r.Fits) {qs : List Request}
    (hqs : ∀ q ∈ qs, q ∈ r.requests ∨ q.Fits r.variants) :
    ({ r with requests := qs } : Record).Fits := by
  intro q hq
  rcases hqs q hq with hm | hfits
  · exact hf q hm
  · exact hfits

theorem dropRequest (hf : r.Fits) (id : String) : (r.dropRequest id).Fits :=
  hf.withRequests fun _ hq => Or.inl (List.mem_filter.1 hq).1

end Fits

theorem mem_go {id : String} {f : Request → Request} {qs : List Request} {q' : Request}
    (hm : q' ∈ changeRequest.go id f qs) :
    q' ∈ qs ∨ ∃ q, qs.find? (fun q => q.id = id) = some q ∧ q' = f q := by
  induction qs with
  | nil => cases hm
  | cons q rest ih =>
      unfold changeRequest.go at hm
      by_cases hid : q.id = id
      · rw [if_pos hid] at hm
        rcases List.mem_cons.1 hm with rfl | hm
        · exact Or.inr ⟨q, by simp [hid], rfl⟩
        · exact Or.inl (List.mem_cons_of_mem _ hm)
      · rw [if_neg hid] at hm
        rcases List.mem_cons.1 hm with rfl | hm
        · exact Or.inl (List.mem_cons_self ..)
        · rcases ih hm with hm | ⟨q₁, hfound, rfl⟩
          · exact Or.inl (List.mem_cons_of_mem _ hm)
          · exact Or.inr ⟨q₁, by simpa [hid] using hfound, rfl⟩

theorem Fits.changeRequest (hf : r.Fits) {id : String} {f : Request → Request}
    (hq : ∀ q, r.request? id = some q → (f q).Fits r.variants) :
    (r.changeRequest id f).Fits := by
  refine hf.withRequests fun q' hm => ?_
  rcases mem_go hm with hm | ⟨q, hfound, rfl⟩
  · exact Or.inl hm
  · exact Or.inr (hq q hfound)

end Record

/-- Where a request of this kind may be filed it fits. -/
theorem Handle.fits_of_allows {h : Handle} {op : Operation} {kind : RequestKind}
    (hop : op.filed? = some kind) (ha : h.allows op = true) {q : Request} (hkind : q.kind = kind)
    (hdate : kind.isScheduled = true → q.scheduledAt.isSome = true) :
    q.Fits h.record.variants := by
  subst hkind
  refine ⟨fun hk => ?_, fun hk => ?_, hdate⟩
  · have hpublishable : h.isPublishable = true := by
      rcases hk with hk | hk <;> rw [hk] at hop <;> cases op <;> cases hop <;>
        simp only [allows, Bool.and_eq_true] at ha <;> exact ha.2.1
    unfold isPublishable at hpublishable
    simpa using hpublishable
  · rcases hk with hk | hk <;> rw [hk] at hop <;> cases op <;> cases hop <;>
      simp only [allows, Bool.and_eq_true] at ha <;> exact ha.2.1

/-- A request that fits still fits once it is scheduled. -/
theorem Request.Fits.schedule {vs : Variants} {q : Request} {kind : RequestKind} {now : Instant}
    (hfits : q.Fits vs) (hdate : q.isDeferred now = true)
    (hkind : Task.scheduledKind? q.kind = some kind) :
    ({ q with kind := kind } : Request).Fits vs := by
  have hsome : q.scheduledAt.isSome = true := by
    obtain ⟨date, hd, -⟩ := (Option.any_eq_true _ _).1 hdate
    rw [hd]
    rfl
  cases hk : q.kind <;> rw [hk] at hkind <;> cases hkind
  · have hpublish := hfits.publish (Or.inl hk)
    exact ⟨fun _ => hpublish, fun h => by simp at h, fun _ => hsome⟩
  · have hdepublish := hfits.depublish (Or.inl hk)
    exact ⟨fun h => by simp at h, fun _ => hdepublish, fun _ => hsome⟩

/-! ## What an operation leaves -/

/-- Documents are published and taken offline only while nothing is pending. -/
theorem Handle.undecided_of_allows {h : Handle} {op : Operation} {id? : Option String}
    (hop : op = .publish ∨ op = .depublish) (ha : (Hints.ofHandle h).allows op id? = true) :
    h.record.pending? = none := by
  rw [← Option.isNone_iff_eq_none]
  rcases hop with rfl | rfl
  · have hg := (Hints.allows_eq h rfl id?).symm.trans ha
    simp only [allows, isUndecided, Bool.and_eq_true] at hg
    exact hg.2.2
  · have hg := (Hints.allows_eq h rfl id?).symm.trans ha
    simp only [allows, isUndecided, Bool.and_eq_true] at hg
    exact hg.2.2

/-- An operation leaves requests that fit. -/
theorem Effect.fits {ctx : Context} {h : Handle} {op : Operation} {path : List Taken}
    {r : Record} {t : Transaction} (he : Effect ctx h op path r t)
    (ha : (Hints.ofHandle h).allows op ctx.arguments.request = true) (hf : h.record.Fits) :
    r.Fits := by
  induction he with
  | claim hd => exact hf.putOver hd _
  | draft hd hu => exact hf.withVariants_of_has (Variants.has_put ..) (Variants.has_put ..)
  | draftPublished hd hu hp =>
      refine hf.withVariants (fun hu' => ?_) fun hp' => ?_
      · rw [Handle.has_eq, hu] at hu'
        cases hu'
      · simp only [Variants.has_put, Record.putVariant]
        exact hp'
  | promote hd hu hp =>
      refine hf.withVariants (fun hu' => ?_) fun hp' => ?_
      · rw [Handle.has_eq, hu] at hu'
        cases hu'
      · simp only [Variants.has_put, Record.putVariant]
        exact hp'
  | fold hd hu =>
      refine hf.withVariants_of_has ?_ ?_
      · simp only [Variants.has_put, Record.putVariant, Handle.has_eq, hu]
        rfl
      · simp only [Variants.has_put, Record.putVariant]
        rfl
  | dispose hd hu => exact hf.withVariants_of_has (Variants.has_put ..) (Variants.has_put ..)
  | update hc hd => exact hf.putOver hd _
  | unlock hd => exact hf.putOver hd _
  | publish hu hp =>
      have hundecided := Handle.undecided_of_allows (by simp) ha
      exact Record.fits_withVariants_of_undecided hundecided _
  | withdraw hu hp =>
      have hundecided := Handle.undecided_of_allows (by simp) ha
      exact Record.fits_withVariants_of_undecided hundecided _
  | demote hu hp =>
      have hundecided := Handle.undecided_of_allows (by simp) ha
      exact Record.fits_withVariants_of_undecided hundecided _
  | delete => exact hf
  | file hop hdate =>
      have hg := (Hints.allows_eq _ (Operation.isRequestScoped_of_filed hop) _).symm.trans ha
      refine hf.withRequests fun q hm => ?_
      rcases List.mem_append.1 hm with hm | hm
      · exact Or.inl hm
      · rw [List.mem_singleton.1 hm]
        exact Or.inr (Handle.fits_of_allows hop hg rfl hdate)
  | copy => exact hf
  | move => exact hf
  | rename => exact hf
  | schedule hid hq hdate hkind =>
      refine hf.changeRequest fun q' hq' => ?_
      rw [Record.id_of_request? hq, hq] at hq'
      cases hq'
      exact (hf _ (List.mem_of_find?_eq_some hq)).schedule hdate hkind
  | accept hid hq hnow hop hallows hrest ih =>
      have hscoped := Operation.isRequestScoped_of_resolving hop
      exact ih ((Hints.allows_eq _ hscoped _).trans hallows) (hf.dropRequest _)
  | reject hid hq =>
      exact hf.changeRequest fun q _ => Record.fits_of_isPending_eq_false rfl _
  | cancel hid hq => exact hf.dropRequest _
  | runScheduled hq hdue hop hallows hrest ih =>
      have hscoped := Operation.isRequestScoped_of_resolving hop
      exact ih ((Hints.allows_eq _ hscoped _).trans hallows) (hf.dropRequest _)
  | version => exact hf
  | restore ht hs' hu => exact hf.putOver hu _
  | restoreOwn ht hs' htarget hown hv => exact hf.putOver hv _
  | restoreOther => exact hf
  | listVersions => exact hf
  | retrieveVersion => exact hf

/-! ## Ids of requests -/

theorem Record.map_id_go {id : String} {f : Request → Request} (hf : ∀ q, (f q).id = q.id)
    (qs : List Request) : (changeRequest.go id f qs).map Request.id = qs.map Request.id := by
  induction qs with
  | nil => rfl
  | cons q rest ih =>
      unfold changeRequest.go
      by_cases hid : q.id = id
      · rw [if_pos hid, List.map_cons, List.map_cons, hf]
      · rw [if_neg hid, List.map_cons, List.map_cons, ih]

/-- An operation leaves some of the ids of the requests, and it may add one that
is new. -/
theorem Effect.ids {ctx : Context} {h : Handle} {op : Operation} {path : List Taken}
    {r : Record} {t : Transaction} (he : Effect ctx h op path r t) :
    ∃ ids, ids.Sublist (h.record.requests.map Request.id) ∧
      (r.requests.map Request.id = ids ∨
        ∃ n, .fresh .request n ∈ path ∧ r.requests.map Request.id = ids ++ [n]) := by
  induction he with
  | file hop hdate =>
      exact ⟨_, List.Sublist.refl _, Or.inr ⟨_, List.mem_cons_self .., List.map_append⟩⟩
  | schedule =>
      refine ⟨_, List.Sublist.refl _, Or.inl ?_⟩
      apply Record.map_id_go
      intro q
      rfl
  | reject =>
      refine ⟨_, List.Sublist.refl _, Or.inl ?_⟩
      apply Record.map_id_go
      intro q
      rfl
  | cancel => exact ⟨_, List.filter_sublist.map _, Or.inl rfl⟩
  | accept hid hq hnow hop hallows hrest ih =>
      obtain ⟨ids, hsub, hids⟩ := ih
      exact ⟨ids, hsub.trans (List.filter_sublist.map _), hids⟩
  | runScheduled hq hdue hop hallows hrest ih =>
      obtain ⟨ids, hsub, hids⟩ := ih
      exact ⟨ids, hsub.trans (List.filter_sublist.map _), hids⟩
  | claim | draft | draftPublished | promote | fold | dispose | update | unlock | publish
  | withdraw | demote | delete | copy | move | rename | version | restore | restoreOwn
  | restoreOther | listVersions | retrieveVersion =>
      exact ⟨_, List.Sublist.refl _, Or.inl rfl⟩

/-- New ids keep the ids of the requests different. -/
theorem Effect.nodup_ids {ctx : Context} {h : Handle} {op : Operation} {path : List Taken}
    {r : Record} {t : Transaction} (he : Effect ctx h op path r t)
    (hids : (h.record.requests.map Request.id).Nodup)
    (hnew : ∀ n, .fresh .request n ∈ path → n ∉ h.record.requests.map Request.id) :
    (r.requests.map Request.id).Nodup := by
  obtain ⟨ids, hsub, heq | ⟨n, hfresh, heq⟩⟩ := he.ids
  · rw [heq]
    exact hids.sublist hsub
  · rw [heq]
    refine (hids.sublist hsub).append (List.nodup_singleton n) ?_
    rw [List.disjoint_singleton]
    exact fun hm => hnew n hfresh (hsub.subset hm)

/-! ## Carrying requests out -/

namespace Record

variable {r : Record} {q : Request}

/-- In a sound record no request is pending but the first. -/
theorem IsSound.pending?_eq (hs : r.IsSound) (hq : q ∈ r.requests)
    (hpending : q.kind.isPending = true) : r.pending? = some q := by
  have hmem : q ∈ r.pendingRequests := List.mem_filter.2 ⟨hq, hpending⟩
  have hlength := hs.pending
  have hhead : r.pending? = r.pendingRequests.head? := List.head?_filter.symm
  rw [hhead]
  cases hp : r.pendingRequests with
  | nil =>
      rw [hp] at hmem
      cases hmem
  | cons q' rest =>
      rw [hp, List.length_cons] at hlength
      have hrest : rest = [] := List.eq_nil_of_length_eq_zero (by omega)
      rw [hp, hrest] at hmem
      rw [List.mem_singleton.1 hmem]
      rfl

/-- Without it nothing is pending. -/
theorem IsSound.pending?_dropRequest (hs : r.IsSound) (hq : r.pending? = some q) :
    (r.dropRequest q.id).pending? = none := by
  apply List.find?_eq_none.2
  intro q' hm hpending
  obtain ⟨hmem, hne⟩ := List.mem_filter.1 hm
  have hq' := hs.pending?_eq hmem (by simpa using hpending)
  rw [hq] at hq'
  cases hq'
  simp at hne

end Record

namespace Handle

variable {h : Handle} {q : Request}

/-- A request that fits can be carried out, by whomever. -/
theorem canCarryOut_of_fits (hs : h.record.IsSound) (hf : h.record.Fits)
    (hq : h.record.pending? = some q) (hkind : q.kind ≠ .deletion) : h.canCarryOut q = true := by
  have hnone := hs.pending?_dropRequest hq
  have hfits := hf q (List.mem_of_find?_eq_some hq)
  have hundecided : (h.withRecord (h.record.dropRequest q.id)).isUndecided = true := by
    unfold isUndecided
    rw [record_withRecord, hnone]
    rfl
  show (h.withRecord (h.record.dropRequest q.id)).allowsResolving q.kind = true
  have hpublish : h.record.variants.has .unpublished = true ∧
      h.record.variants.has .published = false →
      (h.withRecord (h.record.dropRequest q.id)).isPublishable = true := by
    rintro ⟨hu, hp⟩
    show (h.record.variants.has .unpublished && !h.record.variants.has .published) = true
    rw [hu, hp]
    rfl
  cases hk : q.kind with
  | publication =>
      unfold allowsResolving
      rw [hpublish (hfits.publish (Or.inl hk)), hundecided]
      rfl
  | scheduledPublication =>
      unfold allowsResolving
      rw [hpublish (hfits.publish (Or.inr hk)), hundecided]
      rfl
  | depublication =>
      have hp := hfits.depublish (Or.inl hk)
      show (h.record.variants.has .published && _) = true
      rw [hp, hundecided]
      rfl
  | scheduledDepublication =>
      have hp := hfits.depublish (Or.inr hk)
      show (h.record.variants.has .published && _) = true
      rw [hp, hundecided]
      rfl
  | deletion => exact absurd hk hkind
  | rejected =>
      have hpending := Record.pending?_isPending hq
      rw [hk] at hpending
      cases hpending

theorem any_of_isSound (hs : h.record.IsSound) : h.record.variants.any = true := by
  rcases hs.backed.1 with hd | hu | hp
  · exact List.any_eq_true.2 ⟨.draft, Stage.mem_all _, hd⟩
  · exact List.any_eq_true.2 ⟨.unpublished, Stage.mem_all _, hu⟩
  · exact List.any_eq_true.2 ⟨.published, Stage.mem_all _, hp⟩

/-- The hints allow a request that waits for its date to be run. -/
theorem allows_runScheduled_of_fits (hs : h.record.IsSound) (hf : h.record.Fits)
    (hq : h.record.pending? = some q) (hkind : q.kind.isScheduled = true) (id? : Option String) :
    (Hints.ofHandle h).allows .runScheduled id? = true := by
  rw [Hints.allows_eq h rfl]
  have hdeletion : q.kind ≠ .deletion := by
    intro hk
    rw [hk] at hkind
    cases hkind
  unfold allows
  rw [any_of_isSound hs, hq]
  simp only [Option.any_some, hkind, canCarryOut_of_fits hs hf hq hdeletion, Bool.and_self]

/-- The hints allow a request to publish or to take offline to be accepted. -/
theorem allows_acceptRequest_of_fits (hs : h.record.IsSound) (hf : h.record.Fits)
    (hids : (h.record.requests.map Request.id).Nodup) (hq : q ∈ h.record.requests)
    (hkind : q.kind = .publication ∨ q.kind = .depublication) :
    (Hints.ofHandle h).allows .acceptRequest (some q.id) = true := by
  have hpending : q.kind.isPending = true := by rcases hkind with hk | hk <;> rw [hk] <;> rfl
  have hscheduled : q.kind.isScheduled = false := by rcases hkind with hk | hk <;> rw [hk] <;> rfl
  have hdeletion : q.kind ≠ .deletion := by rcases hkind with hk | hk <;> rw [hk] <;> simp
  have hfirst := hs.pending?_eq hq hpending
  exact (Hints.allows_acceptRequest_iff hids q.id).2
    ⟨q, hfirst, rfl, hscheduled, canCarryOut_of_fits hs hf hfirst hdeletion⟩

end Handle

/-! ## Records that are fit -/

/-- A sound record whose requests fit and have different ids, all of them among
`names`. -/
structure Record.IsFit (names : List String) (r : Record) : Prop where
  sound : r.IsSound
  fits : r.Fits
  distinct : (r.requests.map Request.id).Nodup
  known : r.requests.map Request.id ⊆ names

theorem Record.IsFit.mono {names names' : List String} {r : Record} (h : r.IsFit names)
    (hnames : names ⊆ names') : r.IsFit names' :=
  ⟨h.sound, h.fits, h.distinct, fun _ hm => hnames (h.known hm)⟩

/-- Reading a record again leaves its requests and which variants there are. -/
theorem Record.IsFit.reread {names : List String} {r : Record} (h : r.IsFit names) :
    r.reread.IsFit names := by
  refine ⟨h.sound.reread, fun q hq => ?_, h.distinct, h.known⟩
  have hfits := h.fits q hq
  constructor
  · rw [Record.has_reread, Record.has_reread]
    exact hfits.publish
  · rw [Record.has_reread]
    exact hfits.depublish
  · exact hfits.date

theorem Backend.isFit_handsOut (b : Backend) {names : List String} {stored : Stored}
    (h : stored.record.IsFit names) : (b.handsOut stored).record.IsFit names := by
  cases b with
  | whole => exact h
  | stepwise => exact h.reread

theorem Record.stageable_isFit (names : List String) : Stageable (Record.IsFit names) := by
  constructor
  · intro id location v
    refine ⟨isSound_single id location v, fun q hq => ?_, List.nodup_nil, List.nil_subset _⟩
    cases hq
  · intro r stage old new h hold hnew
    exact ⟨h.sound.putOver hold hnew, h.fits.putOver hold new, h.distinct, h.known⟩

/-- An operation leaves a fit record if it is given new names only. -/
theorem Effect.isFit {ctx : Context} {h : Handle} {op : Operation} {path : List Taken}
    {r : Record} {t : Transaction} {names : List String} (he : Effect ctx h op path r t)
    (ha : (Hints.ofHandle h).allows op ctx.arguments.request = true)
    (hfit : h.record.IsFit names) (hgiven : ∀ n, .fresh .request n ∈ path → n ∈ names)
    (hnew : ∀ n, .fresh .request n ∈ path → n ∉ h.record.requests.map Request.id) :
    r.IsFit names := by
  refine ⟨he.isSound ha hfit.sound, he.fits ha hfit.fits, he.nodup_ids hfit.distinct hnew, ?_⟩
  obtain ⟨ids, hsub, heq | ⟨n, hfresh, heq⟩⟩ := he.ids
  · rw [heq]
    exact fun _ hm => hfit.known (hsub.subset hm)
  · rw [heq]
    intro id hm
    rcases List.mem_append.1 hm with hm | hm
    · exact hfit.known (hsub.subset hm)
    · rw [List.mem_singleton.1 hm]
      exact hgiven n hfresh

/-- What an operation stages has the properties of what it loads. -/
theorem Effect.stages {ctx : Context} {h : Handle} {op : Operation} {path : List Taken}
    {r : Record} {t : Transaction} {P : Record → Prop} (he : Effect ctx h op path r t)
    (ha : (Hints.ofHandle h).allows op ctx.arguments.request = true)
    (hP : Record.Stageable P) (hloads : ∀ step ∈ path, step.Loads P) : t.Stages P := by
  have hl := Table.leads_fire_iff.2 ⟨ha, r, t, rfl, he⟩
  exact (Table.meets_fire hP .standard ctx op h).post_of_leads hl hloads

end Editorial
