import Editorial.Proofs.Hints.Agreement

/-!
# Approving a request and doing it oneself

What a request asks for can be done in two ways. It is approved: an editor accepts it, or
it is run when its date has come, and then a task takes it off the record and fires the
operation from inside its own pipeline. Or somebody withdraws it and fires the operation.
Whether the request may be approved is foretold on a copy of the handle; whether the
operation may be fired is judged on the record that the withdrawal left.

Both ways are the same process, question by question. So they come to the same for the same
answers, and as nothing is asked but the time and the names of new variants, nothing else
can make them differ.

## Main results

* `approving_eq_direct` — a request may be approved exactly if its operation may be fired
  once it is withdrawn, and both leave the same record and note the same.
-/

namespace Editorial

/-- The operation `approving` carries the request `q` out: it accepts the request, which is
not put off to a later date, or it runs the request, whose date has come. -/
inductive Request.ApprovedBy (arguments : Arguments) (q : Request) : Operation → Prop
  | accepted (hid : arguments.request = some q.id) (hwaits : q.kind.isScheduled = false)
      (hnow : q.kind = .deletion ∨ q.isDeferred arguments.now = false) :
      ApprovedBy arguments q .acceptRequest
  | ran (hdue : q.isDue arguments.now = true) : ApprovedBy arguments q .runScheduled

/-- The context of an operation on the request `id`. -/
def Context.naming (ctx : Context) (id : String) : Context :=
  { ctx with arguments := { ctx.arguments with request := some id } }

/-- Withdraws the request `id` and then fires `op`. -/
def Table.withdrawAndFire (table : Table) (ctx : Context) (id : String) (op : Operation) :
    Act Unit := do
  table.fire (ctx.naming id) .cancelRequest
  table.fire ctx op

/-- The records are the same, up to the ids of variants that `before` does not have. -/
structure Record.SameButCreated (before r r' : Record) : Prop where
  rest : { r with variants := r'.variants } = r'
  variants : ∀ stage, r.variants.get stage = r'.variants.get stage ∨
    before.variants.get stage = none ∧ ∃ v name, r.variants.get stage = some v ∧
      r'.variants.get stage = some { v with id := name }

theorem Record.SameButCreated.refl (before r : Record) : before.SameButCreated r r :=
  ⟨rfl, fun _ => Or.inl rfl⟩

variable {ctx : Context} {h : Handle} {q : Request} {op approving : Operation}

/-! ## Permission -/

/-- The request that is pending may be approved exactly if its operation may be fired
without it. -/
theorem allows_approving_iff (hids : (h.record.requests.map Request.id).Nodup)
    (hq : h.record.pending? = some q) (hop : Operation.resolving? q.kind = some op)
    (hby : q.ApprovedBy ctx.arguments approving) :
    (Hints.ofHandle h).allows approving ctx.arguments.request = true ↔
      (Hints.ofHandle (h.withRecord (h.record.dropRequest q.id))).allows op
        ctx.arguments.request = true := by
  have hscoped := Operation.isRequestScoped_of_resolving hop
  have hcarry : h.canCarryOut q = true ↔
      (h.withRecord (h.record.dropRequest q.id)).allows op = true := by
    rw [Handle.canCarryOut_iff, hop]
    simp [Handle.withRecord]
  rw [Hints.allows_eq _ hscoped, ← hcarry]
  cases hby with
  | accepted hid hwaits hnow =>
      rw [hid, Hints.allows_acceptRequest_iff hids]
      constructor
      · rintro ⟨q', hq', -, -, hc⟩
        rw [hq] at hq'
        cases hq'
        exact hc
      · intro hc
        exact ⟨q, hq, rfl, hwaits, hc⟩
  | ran hdue =>
      have hscheduled := (Bool.and_eq_true_iff.1 hdue).1
      rw [Hints.allows_eq h rfl]
      simp only [Handle.allows, hq, Option.any_some, hscheduled, Bool.true_and,
        Bool.and_eq_true, and_iff_right_iff_imp]
      intro hc
      have hallows := hcarry.1 hc
      exact (Bool.and_eq_true_iff.1 hallows).1

/-! ## The same process -/

namespace Table

open Act Process

/-- An operation that carries requests out never fails, and it does the same at every
depth. -/
theorem on_resolving {kind : RequestKind} (hop : Operation.resolving? kind = some op)
    (ha : (Hints.ofHandle h).allows op ctx.arguments.request = true) (depth depth' : Nat)
    (f : Failure → Failure) :
    (((standard.fireWithin ctx (depth + 1) op).on ⟨h, {}⟩).bind fun r =>
        done (r.1.mapError f, r.2)) =
      (standard.fireWithin ctx (depth' + 1) op).on ⟨h, {}⟩ := by
  have hcases : op = .publish ∨ op = .depublish ∨ op = .delete := by
    cases kind <;> cases hop <;> simp
  have hg := (Hints.allows_eq h (Operation.isRequestScoped_of_resolving hop) _).symm.trans ha
  rcases hcases with rfl | rfl | rfl
  · obtain ⟨u, hu⟩ := Handle.exists_unpublished_of_allows (by simp) hg
    have hp := Handle.published_eq_none_of_allows hg
    rw [on_publish ha hu hp, on_publish ha hu hp]
    rfl
  · obtain ⟨p, hp⟩ := Handle.exists_published_of_allows hg
    rw [on_depublish ha hp, on_depublish ha hp]
    rfl
  · rw [on_delete ha, on_delete ha]
    rfl

/-- Approving a request is firing its operation without it. -/
theorem on_approving (hids : (h.record.requests.map Request.id).Nodup)
    (hq : h.record.pending? = some q) (hop : Operation.resolving? q.kind = some op)
    (hby : q.ApprovedBy ctx.arguments approving)
    (ha : (Hints.ofHandle h).allows approving ctx.arguments.request = true) :
    (standard.fire ctx approving).on ⟨h, {}⟩ =
      (standard.fire ctx op).on ⟨h.withRecord (h.record.dropRequest q.id), {}⟩ := by
  have hallows := (allows_approving_iff hids hq hop hby).1 ha
  cases hby with
  | accepted hid hwaits hnow =>
      have hfound : h.record.request? q.id = some q :=
        Record.request?_id hids (List.mem_of_find?_eq_some hq)
      -- Of the kinds that wait for a decision only deletion has no scheduled kind.
      have hnow' : (if q.isDeferred ctx.arguments.now then Task.scheduledKind? q.kind
          else none) = none := by
        rcases hnow with hkind | hnow
        · rw [hkind]
          exact ite_self _
        · rw [hnow]
          rfl
      rw [fire, depthLimit, on_standard_single ha rfl, Task.run, Task.on_runAcceptRequest,
        Task.on_namedRequest]
      simp only [hid, hfound, bind_done, hnow', Task.on_carryOut, hop, Work.mapRecord_mk]
      exact on_resolving hop hallows _ _ _
  | ran hdue =>
      have hscheduled := (Bool.and_eq_true_iff.1 hdue).1
      rw [fire, depthLimit, on_standard_single ha rfl, Task.run, Task.on_runScheduledRequest]
      simp only [hq, Option.filter_some, hscheduled, hdue, if_true, Task.on_carryOut, hop,
        Work.mapRecord_mk]
      exact on_resolving hop hallows _ _ _

/-- A request on the record is withdrawn whatever its state. -/
theorem on_withdrawAndFire (ctx : Context) (op : Operation)
    (hids : (h.record.requests.map Request.id).Nodup) (hq : q ∈ h.record.requests) :
    (standard.withdrawAndFire ctx q.id op).on ⟨h, {}⟩ =
      (standard.fire ctx op).on ⟨h.withRecord (h.record.dropRequest q.id), {}⟩ := by
  have ha : (Hints.ofHandle h).allows .cancelRequest (ctx.naming q.id).arguments.request = true :=
    (Hints.allows_cancelRequest_iff hids q.id).2 ⟨q, hq, rfl⟩
  have hnamed : (ctx.naming q.id).arguments.request = some q.id := rfl
  unfold withdrawAndFire
  rw [on_bind, fire, depthLimit, on_standard_single ha rfl, Task.run, Task.on_runCancelRequest,
    Task.on_namedRequest]
  simp only [hnamed, Record.request?_id hids hq, bind_done, Work.mapRecord_mk]
  rfl

end Table

/-! ## The same result -/

/-- What an operation that carries requests out leaves for the same times differs in the
names of the variants it makes, and in nothing else. -/
theorem firing_resolving_same {kind : RequestKind} (hop : Operation.resolving? kind = some op)
    (ha : (Hints.ofHandle h).allows op ctx.arguments.request = true)
    {readings readings' : Readings} (hclock : readings'.clock = readings.clock)
    (s s' : System) :
    ∃ r r' t, firing readings s ctx op h = some (.ok (), ⟨h.withRecord r, t⟩) ∧
      firing readings' s' ctx op h = some (.ok (), ⟨h.withRecord r', t⟩) ∧
      h.record.SameButCreated r r' := by
  have hcases : op = .publish ∨ op = .depublish ∨ op = .delete := by
    cases kind <;> cases hop <;> simp
  have hg := (Hints.allows_eq h (Operation.isRequestScoped_of_resolving hop) _).symm.trans ha
  unfold firing Table.fire Table.depthLimit
  rcases hcases with rfl | rfl | rfl
  · obtain ⟨u, hu⟩ := Handle.exists_unpublished_of_allows (by simp) hg
    have hp := Handle.published_eq_none_of_allows hg
    rw [Table.on_publish ha hu hp]
    let p (readings : Readings) : Variant :=
      .entering .published (readings.names 1) u.content h.user (readings.clock 0)
        (some (readings.clock 2))
    have hp' : p readings' = { p readings with id := readings'.names 1 } := by
      simp only [p, hclock]
      rfl
    refine ⟨h.record.putVariant .published (some (p readings)),
      h.record.putVariant .published (some (p readings')), {}, rfl, rfl, rfl, fun stage => ?_⟩
    by_cases hstage : stage = .published
    · subst hstage
      refine Or.inr ⟨hp, p readings, readings'.names 1, by simp, ?_⟩
      rw [Record.get_putVariant, if_pos rfl, hp']
    · exact Or.inl (by simp [hstage])
  · obtain ⟨p, hp⟩ := Handle.exists_published_of_allows hg
    rw [Table.on_depublish ha hp]
    exact ⟨_, _, _, rfl, rfl, .refl _ _⟩
  · rw [Table.on_delete ha]
    exact ⟨_, _, _, rfl, rfl, .refl _ _⟩

/-- How approving the request `q` compares with withdrawing it and firing its operation `op`
oneself. -/
structure ApprovesAsDirect (ctx : Context) (h : Handle) (q : Request)
    (approving op : Operation) : Prop where
  allows_iff : (Hints.ofHandle h).allows approving ctx.arguments.request = true ↔
    (Hints.ofHandle (h.withRecord (h.record.dropRequest q.id))).allows op
      ctx.arguments.request = true
  /-- If the one is denied, so is the other. -/
  denied : (Hints.ofHandle h).allows approving ctx.arguments.request = false →
    ∀ readings s, firing readings s ctx approving h = some (.error (.denied approving), ⟨h, {}⟩) ∧
      (s.runAt readings ((Table.standard.withdrawAndFire ctx q.id op).on ⟨h, {}⟩)).1 =
        some (.error (.denied op), ⟨h.withRecord (h.record.dropRequest q.id), {}⟩)
  /-- Otherwise both are the same process, -/
  same_process : (Hints.ofHandle h).allows approving ctx.arguments.request = true →
    (Table.standard.fire ctx approving).on ⟨h, {}⟩ =
      (Table.standard.withdrawAndFire ctx q.id op).on ⟨h, {}⟩
  /-- and both succeed, with the same record but for names and the same notes. -/
  same : (Hints.ofHandle h).allows approving ctx.arguments.request = true →
    ∀ (readings readings' : Readings) (s s' : System), readings'.clock = readings.clock →
      ∃ r r' t, firing readings s ctx approving h = some (.ok (), ⟨h.withRecord r, t⟩) ∧
        (s'.runAt readings' ((Table.standard.withdrawAndFire ctx q.id op).on ⟨h, {}⟩)).1 =
          some (.ok (), ⟨h.withRecord r', t⟩) ∧
        h.record.SameButCreated r r'

/-- A request may be approved exactly if its operation may be fired once the request is
withdrawn, and then both come to the same. -/
theorem approving_eq_direct (hids : (h.record.requests.map Request.id).Nodup)
    (hq : h.record.pending? = some q) (hop : Operation.resolving? q.kind = some op)
    (hby : q.ApprovedBy ctx.arguments approving) : ApprovesAsDirect ctx h q approving op := by
  have hiff := allows_approving_iff hids hq hop hby
  have hwithdraw := Table.on_withdrawAndFire ctx op hids (List.mem_of_find?_eq_some hq)
  refine ⟨hiff, ?_, ?_, ?_⟩
  · intro ha readings s
    have hdenied := Bool.eq_false_iff.2 (mt hiff.2 (Bool.eq_false_iff.1 ha))
    refine ⟨firing_of_denied readings s ha, ?_⟩
    rw [hwithdraw]
    exact firing_of_denied readings s hdenied
  · intro ha
    rw [hwithdraw, Table.on_approving hids hq hop hby ha]
  · intro ha readings readings' s s' hclock
    rw [hwithdraw, firing, Table.on_approving hids hq hop hby ha]
    obtain ⟨r, r', t, hr, hr', hsame⟩ := firing_resolving_same hop (hiff.1 ha) hclock s s'
    exact ⟨r, r', t, hr, hr', hsame.rest, hsame.variants⟩

/-- A deletion is accepted before the date it names, while nobody holds a draft. -/
theorem approving_eq_direct_deletion :
    let tomorrow : Instant := ⟨86400, 0, by decide, by decide, by decide⟩
    let q : Request := ⟨"q", .deletion, some tomorrow, none, "ann", .epoch⟩
    let u := Variant.make "v" .unpublished .null "ann" .epoch
    let h : Handle := ⟨{ Record.single "d" none u with requests := [q] }, 1, "bob"⟩
    let ctx : Context := ⟨{ request := some "q", now := .epoch }, "folders"⟩
    (h.record.requests.map Request.id).Nodup ∧ h.record.pending? = some q ∧
      Operation.resolving? q.kind = some .delete ∧ q.isDeferred ctx.arguments.now = true ∧
      (Hints.ofHandle h).allows .acceptRequest ctx.arguments.request = true ∧
      ApprovesAsDirect ctx h q .acceptRequest .delete := by
  intro tomorrow q u h ctx
  have hids : (h.record.requests.map Request.id).Nodup := by decide
  refine ⟨hids, rfl, rfl, by decide, by decide, ?_⟩
  exact approving_eq_direct hids rfl rfl (.accepted rfl rfl (Or.inl rfl))

end Editorial
