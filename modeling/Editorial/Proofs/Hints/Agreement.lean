import Editorial.Proofs.Pipeline.Outcome
import Editorial.Proofs.System.Readings

/-!
# Hints and execution agree

The guards, the rules of the table and the preconditions inside the tasks are
written independently of one another. On a sound handle whose requests have
different ids they fit together: what the hints allow is carried out unless
something outside the handle stands in the way, and what is carried out leaves
a sound record.

## Main results

* `Effect.isSound` — an operation leaves a sound record.
* `fire_agrees` — firing is denied exactly if the hints do not allow it, and
  otherwise fails for no other reason than an `Obstacle`.
-/

namespace Editorial

/-! ## What an operation leaves is sound -/

theorem Operation.isRequestScoped_of_filed {op : Operation} {kind : RequestKind}
    (hop : op.filed? = some kind) : op.isRequestScoped = false := by
  cases op <;> cases hop <;> rfl

/-- Requests are filed only while none is pending. -/
theorem Handle.pending?_eq_none_of_allows {h : Handle} {op : Operation} {kind : RequestKind}
    (hop : op.filed? = some kind) (ha : h.allows op = true) : h.record.pending? = none := by
  rw [← Option.isNone_iff_eq_none]
  cases op <;> cases hop <;> simp only [allows, isUndecided, Bool.and_eq_true] at ha
  · exact ha.2.2
  · exact ha.2.2
  · exact ha.2.2
  · exact ha.2.2
  · exact ha.2.1

/-- A request that can be scheduled is pending. -/
theorem Task.isPending_of_scheduledKind? {kind kind' : RequestKind}
    (hk : scheduledKind? kind = some kind') : kind.isPending = true := by
  cases kind <;> cases hk <;> rfl

theorem Effect.isSound {ctx : Context} {h : Handle} {op : Operation} {path : List Taken}
    {r : Record} {t : Transaction} (he : Effect ctx h op path r t)
    (ha : (Hints.ofHandle h).allows op ctx.arguments.request = true)
    (hs : h.record.IsSound) : r.IsSound := by
  have hnone : ∀ {stage : Stage} (v : Variant), (none : Option Variant) = some v →
      v.stage = stage := fun _ hv => nomatch hv
  have hsome : ∀ {v : Variant} (v' : Variant), some v = some v' → v'.stage = v.stage :=
    fun _ hv => by cases hv; rfl
  induction he with
  | claim hd => exact hs.putOver hd rfl
  | draft hd hu =>
      exact hs.putVariant hsome (by simp [Variants.Backed, Variants.has_put, Handle.has_eq, hu])
  | draftPublished hd hu hp =>
      exact hs.putTwo hsome hsome (by simp [Variants.Backed, Variants.has_put])
  | promote hd hu hp =>
      exact hs.putTwo hnone hsome (by simp [Variants.Backed, Variants.has_put])
  | fold hd hu =>
      refine hs.putTwo ?_ hnone (by simp [Variants.Backed, Variants.has_put])
      intro v hv
      cases hv
      have hstage := hs.filed _ _ hu
      exact hstage
  | dispose hd hu =>
      exact hs.putVariant hnone (by simp [Variants.Backed, Variants.has_put, Handle.has_eq, hu])
  | update hc hd => exact hs.putOver hd rfl
  | unlock hd => exact hs.putOver hd rfl
  | publish hu hp =>
      exact hs.putVariant hsome (by simp [Variants.Backed, Variants.has_put, Handle.has_eq, hu])
  | withdraw hu hp =>
      exact hs.putVariant hnone (by simp [Variants.Backed, Variants.has_put, Handle.has_eq, hu])
  | demote hu hp =>
      exact hs.putTwo hnone hsome (by simp [Variants.Backed, Variants.has_put])
  | delete => exact hs
  | file hop hdate =>
      have hg := (Hints.allows_eq _ (Operation.isRequestScoped_of_filed hop) _).symm.trans ha
      exact hs.fileRequest (Handle.pending?_eq_none_of_allows hop hg) _
  | copy => exact hs
  | move => exact hs.withLocation _
  | rename => exact hs.withLocation _
  | schedule hid hq hdate hkind =>
      refine hs.changeRequest fun q' hq' _ => ?_
      rw [Record.id_of_request? hq, hq] at hq'
      cases hq'
      exact Task.isPending_of_scheduledKind? hkind
  | accept hid hq hnow hop hallows hrest ih =>
      have hscoped := Operation.isRequestScoped_of_resolving hop
      exact ih ((Hints.allows_eq _ hscoped _).trans hallows) (hs.dropRequest _)
  | reject hid hq => exact hs.changeRequest fun q' hq' hp => nomatch hp
  | cancel hid hq => exact hs.dropRequest _
  | runScheduled hq hdue hop hallows hrest ih =>
      have hscoped := Operation.isRequestScoped_of_resolving hop
      exact ih ((Hints.allows_eq _ hscoped _).trans hallows) (hs.dropRequest _)
  | version hu ht =>
      refine hs.withHistory (hs.history.concat fun last hlast => ?_)
      exact Task.lt_of_snapshotTime ht hlast
  | restore ht hs' hu => exact hs.putOver hu rfl
  | restoreOwn ht hs' htarget hown hv => exact hs.putOver hv rfl
  | restoreOther => exact hs
  | listVersions => exact hs
  | retrieveVersion => exact hs

/-! ## Nothing inside the handle stands in the way -/

theorem Handle.exists_rule_of_allows {h : Handle} {op : Operation} {id? : Option String}
    (ha : (Hints.ofHandle h).allows op id? = true) :
    ∃ rule, Table.standard.rule? op h.record.status = some rule := by
  rw [← Option.isSome_iff_exists, Table.rule?_status]
  have hg : op.isRequestScoped = false → h.allows op = true :=
    fun hop => (Hints.allows_eq h hop _).symm.trans ha
  cases op with
  | obtain =>
      cases hd : h.variant? .draft with
      | some d => rfl
      | none =>
          cases hu : h.variant? .unpublished with
          | some u => rfl
          | none =>
              obtain ⟨p, hp⟩ := exists_published_of_any (hg rfl) hd hu
              rw [hp]
              rfl
  | commit =>
      obtain ⟨d, hd⟩ := exists_draft_of_allows (by simp) (hg rfl)
      rw [hd]
      cases (h.variant? .unpublished).isSome <;> cases (h.variant? .published).isSome <;> rfl
  | dispose =>
      obtain ⟨d, hd⟩ := exists_draft_of_allows (by simp) (hg rfl)
      obtain ⟨u, hu⟩ := exists_unpublished_of_allows (by simp) (hg rfl)
      rw [hd, hu]
      rfl
  | update =>
      obtain ⟨d, hd⟩ := exists_draft_of_allows (by simp) (hg rfl)
      rw [hd]
      rfl
  | unlock =>
      obtain ⟨d, hd⟩ := exists_draft_of_allows (by simp) (hg rfl)
      rw [hd]
      rfl
  | publish =>
      obtain ⟨u, hu⟩ := exists_unpublished_of_allows (by simp) (hg rfl)
      rw [hu, published_eq_none_of_allows (hg rfl)]
      cases (h.variant? .draft).isSome <;> rfl
  | depublish =>
      obtain ⟨p, hp⟩ := exists_published_of_allows (hg rfl)
      rw [hp]
      cases (h.variant? .draft).isSome <;> cases (h.variant? .unpublished).isSome <;> rfl
  | version =>
      obtain ⟨u, hu⟩ := exists_unpublished_of_allows (by simp) (hg rfl)
      rw [hu]
      cases (h.variant? .draft).isSome <;> cases (h.variant? .published).isSome <;> rfl
  | restoreVersion =>
      obtain ⟨u, hu⟩ := exists_unpublished_of_allows (by simp) (hg rfl)
      rw [hu]
      cases (h.variant? .draft).isSome <;> cases (h.variant? .published).isSome <;> rfl
  | restoreVersionTo =>
      obtain ⟨u, hu⟩ := exists_unpublished_of_allows (by simp) (hg rfl)
      rw [hu]
      cases (h.variant? .draft).isSome <;> cases (h.variant? .published).isSome <;> rfl
  | schedulePublish | scheduleDepublish | delete | copy | move | rename | requestPublication
  | requestDepublication | requestDeletion | acceptRequest | rejectRequest | cancelRequest
  | runScheduled | listVersions | retrieveVersion => rfl

/-- Of requests with different ids each is found by its own. -/
theorem Record.request?_id {r : Record} (hids : (r.requests.map Request.id).Nodup) {q : Request}
    (hq : q ∈ r.requests) : r.request? q.id = some q := by
  cases hfound : r.request? q.id with
  | none =>
      have := List.find?_eq_none.1 hfound q hq
      simp at this
  | some q' =>
      have hmem : q' ∈ r.requests := List.mem_of_find?_eq_some hfound
      rw [List.inj_on_of_nodup_map hids hmem hq (id_of_request? hfound)]

/-- A request that the hints allow to be accepted can be carried out. -/
theorem Handle.canCarryOut_of_allows {h : Handle} {id : String} {q : Request}
    (hids : (h.record.requests.map Request.id).Nodup)
    (ha : (Hints.ofHandle h).allows .acceptRequest (some id) = true)
    (hq : h.record.request? id = some q) : h.canCarryOut q = true := by
  obtain ⟨q', hpending, rfl, -, hcarry⟩ := (Hints.allows_acceptRequest_iff hids id).1 ha
  rw [Record.request?_id hids (List.mem_of_find?_eq_some hpending)] at hq
  cases hq
  exact hcarry

/-! ## Agreement -/

theorem Taken.AnsweredBy.not_failed {s : System} {t : Taken} (ht : t.AnsweredBy s) :
    ¬ t.Failed := by
  rcases t with ⟨query, answer⟩
  intro hf
  cases query with
  | find location | folder category container =>
      obtain ⟨failure, rfl⟩ := hf
      cases ht
  | now | fresh kind | load id | commit changes | pause milliseconds | log notice => exact hf

/-- On a sound record whose requests have different ids, an operation that the hints
allow and whose steps a system answers that can load all records succeeds, or there is an
obstacle, or the calendar has no time left for another version. -/
theorem Outcome.of_answered {s : System} (hreadable : s.IsReadable) {ctx : Context}
    {op : Operation} {h : Handle} {path : List Taken} {result : Option (Except Failure Unit × Work)}
    (ho : Outcome ctx h op path result) (hs : h.record.IsSound)
    (hids : (h.record.requests.map Request.id).Nodup)
    (ha : (Hints.ofHandle h).allows op ctx.arguments.request = true)
    (hanswered : ∀ t ∈ path, t.AnsweredBy s) :
    (∃ r t, result = some (.ok (), ⟨h.withRecord r, t⟩) ∧ Effect ctx h op path r t) ∨
      (∃ f w, result = some (.error f, w) ∧ Obstacle ctx h (Taken.AnsweredBy s) op f) ∨
      (result = none ∧ op = .version ∧
        ∃ last, h.record.history.getLast? = some last ∧
          last.timestamp.nextMicrosecond? = none) := by
  cases ho with
  | success he => exact Or.inl ⟨_, _, rfl, he⟩
  | obstacle ho => exact Or.inr (Or.inl ⟨_, _, rfl, ho.mono hanswered⟩)
  | unanswered hop hm hf => exact absurd hf (hanswered _ hm).not_failed
  | unloaded hop htarget hother hm =>
      exact absurd (hanswered _ hm).symm (hreadable.load_ne_error _ _)
  | stranded hop hd hu hp =>
      have hbacked := hs.backed.2 hd hp
      rw [Handle.has_eq, hu] at hbacked
      cases hbacked
  | undone hop hid hq hcarry =>
      subst hop
      rw [hid] at ha
      rw [Handle.canCarryOut_of_allows hids ha hq] at hcarry
      cases hcarry
  | overflow hop hlast hnext => exact Or.inr (Or.inr ⟨rfl, hop, _, hlast, hnext⟩)

/-- What firing an operation of the standard table comes to in a system. -/
def firing (readings : Readings) (s : System) (ctx : Context) (op : Operation) (h : Handle) :
    Option (Except Failure Unit × Work) :=
  (s.runAt readings ((Table.standard.fire ctx op).on ⟨h, {}⟩)).1

/-- How an operation that the hints allow may end in a system: it succeeds and
leaves a record that passes its checks or is to be removed, or there is an
obstacle, or the calendar has no time left for another version. -/
def EndsAsHinted (readings : Readings) (s : System) (ctx : Context) (op : Operation)
    (h : Handle) : Prop :=
  (∃ w, firing readings s ctx op h = some (.ok (), w) ∧
      (w.transaction.deletes = false → w.handle.record.check = .ok ())) ∨
    (∃ f w, firing readings s ctx op h = some (.error f, w) ∧
      Obstacle ctx h (Taken.AnsweredBy s) op f) ∨
    (firing readings s ctx op h = none ∧ op = .version ∧
      ∃ last, h.record.history.getLast? = some last ∧ last.timestamp.nextMicrosecond? = none)

section

variable (readings : Readings) (s : System) {ctx : Context} {op : Operation} {h : Handle}

/-- A run of the operation takes a path that the system answers. -/
theorem exists_leads_firing (ctx : Context) (op : Operation) (h : Handle) :
    ∃ path, ((Table.standard.fire ctx op).on ⟨h, {}⟩).Leads path (firing readings s ctx op h) ∧
      ∀ t ∈ path, t.AnsweredBy s := by
  obtain ⟨path, hl, ht⟩ := Process.exists_leads_run (System.answerAt readings)
    ((Table.standard.fire ctx op).on ⟨h, {}⟩) (s, 0)
  exact ⟨path, hl, System.answeredBy_of_told ht (Table.isReading_of_leads_fire hl)⟩

/-- The operation comes to the end of a path that the system answers and the readings give. -/
theorem firing_of_leads {readings : Readings} {s : System} {path : List Taken}
    {result : Option (Except Failure Unit × Work)}
    (hl : ((Table.standard.fire ctx op).on ⟨h, {}⟩).Leads path result)
    (hanswered : ∀ t ∈ path, t.AnsweredBy s) (hgives : readings.Gives 0 path) :
    firing readings s ctx op h = result := by
  obtain ⟨s', htold, -, -⟩ :=
    System.exists_told (s := (s, 0)) (Table.isReading_of_leads_fire hl) hanswered hgives
  rw [firing, System.runAt_of_leads hl htold]

theorem firing_of_denied
    (ha : (Hints.ofHandle h).allows op ctx.arguments.request = false) :
    firing readings s ctx op h = some (.error (.denied op), ⟨h, {}⟩) := by
  unfold firing
  rw [Table.on_fire_denied ha]
  rfl

theorem endsAsHinted_of_allowed (hreadable : s.IsReadable) (hs : h.record.IsSound)
    (hids : (h.record.requests.map Request.id).Nodup)
    (ha : (Hints.ofHandle h).allows op ctx.arguments.request = true) :
    EndsAsHinted readings s ctx op h := by
  obtain ⟨path, hl, hanswered⟩ := exists_leads_firing readings s ctx op h
  unfold EndsAsHinted
  generalize firing readings s ctx op h = ended at hl
  rcases (Table.outcome_of_leads_fire ha hl).of_answered hreadable hs hids ha hanswered with
    ⟨r, t, hr, he⟩ | ho | hnone
  · exact Or.inl ⟨_, hr, fun _ => (Record.check_eq_ok_iff _).2 (he.isSound ha hs)⟩
  · exact Or.inr (Or.inl ho)
  · exact Or.inr (Or.inr hnone)

end

/-- Hints and execution agree about an operation: it is denied exactly if the
hints do not allow it; and if they do, a rule of the table matches and the
operation ends as it may. -/
structure HintsAgree (readings : Readings) (s : System) (ctx : Context) (op : Operation)
    (h : Handle) : Prop where
  denied_iff : (∃ f w, firing readings s ctx op h = some (.error f, w) ∧ f.kind = .notAllowed) ↔
    (Hints.ofHandle h).allows op ctx.arguments.request = false
  exists_rule : (Hints.ofHandle h).allows op ctx.arguments.request = true →
    ∃ rule, Table.standard.rule? op h.record.status = some rule
  ends : (Hints.ofHandle h).allows op ctx.arguments.request = true →
    EndsAsHinted readings s ctx op h

/-- Hints and execution agree about every operation, on every sound handle whose
requests have different ids, in a system that can load all its records. -/
theorem fire_agrees (readings : Readings) (s : System) (hreadable : s.IsReadable)
    (ctx : Context) (op : Operation) (h : Handle) (hcheck : h.record.check = .ok ())
    (hids : (h.record.requests.map Request.id).Nodup) : HintsAgree readings s ctx op h := by
  have hs : h.record.IsSound := (Record.check_eq_ok_iff _).1 hcheck
  refine ⟨⟨?_, ?_⟩, Handle.exists_rule_of_allows,
    endsAsHinted_of_allowed readings s hreadable hs hids⟩
  · rintro ⟨f, w, hended, hkind⟩
    rw [← Bool.not_eq_true]
    intro ha
    rcases endsAsHinted_of_allowed readings s hreadable hs hids ha with
      ⟨w', hok, -⟩ | ⟨f', w', herr, ho⟩ | ⟨hnone, -⟩
    · rw [hok] at hended
      cases hended
    · rw [herr] at hended
      cases hended
      exact ho.kind_ne hkind
    · rw [hnone] at hended
      cases hended
  · intro ha
    exact ⟨_, _, firing_of_denied readings s ha, rfl⟩

/-- The agreement about publishing a new document, in memory. -/
theorem fire_agrees_new :
    let v := Variant.make "v" .unpublished .null "ann" .epoch
    let h : Handle := ⟨.single "d" none v, 1, "ann"⟩
    System.IsReadable {} ∧ h.record.check = .ok () ∧ (h.record.requests.map Request.id).Nodup ∧
      HintsAgree ⟨fun _ => .epoch, fun _ => "w"⟩ {} ⟨{ now := .epoch }, "folders"⟩ .publish h := by
  intro v h
  have hreadable : System.IsReadable {} := System.isReadable_of_whole rfl
  have hcheck : h.record.check = .ok () := rfl
  have hids : (h.record.requests.map Request.id).Nodup := by decide
  exact ⟨hreadable, hcheck, hids, fire_agrees _ _ hreadable _ _ h hcheck hids⟩

end Editorial
