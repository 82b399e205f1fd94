import Editorial.Proofs.Desk.Alone
import Editorial.Proofs.Hints.Agreement
import Editorial.Proofs.Pipeline.Contents
import Editorial.Proofs.Store.Exact
import Editorial.Proofs.Store.Nesting

/-!
# Calls that replace one record

Most calls change one document and nothing besides. Run alone, such a call is handed the
document as the store has it; if the hints allow its operation, the operation's effect on
that record is what is stored afterwards, under the next revision, and no other record is
touched. If the operation fails, nothing is. So what a call does when it runs alone can be
read off the effect of its operation, which says nothing of stores, and calls can follow
one another: the store that one leaves is again one that the next can run in.

## Main results

* `System.exists_replaces` — a call stores what its operation leaves of the record.
* `System.exists_unchanged` — a call whose operation fails leaves the store.
-/

namespace Editorial

/-- A stored document as it is handed to a user. -/
def Backend.handTo (b : Backend) (stored : Stored) (user : String) : Handle :=
  ⟨(b.handsOut stored).record, (b.handsOut stored).revision, user⟩

section

variable (b : Backend) (stored : Stored) (user : String)

@[simp] theorem Backend.record_handTo :
    (b.handTo stored user).record = (b.handsOut stored).record := rfl

@[simp] theorem Backend.id_handTo : (b.handTo stored user).id = stored.record.id :=
  b.id_handsOut stored

theorem Backend.variant?_handTo (stage : Stage) :
    (b.handTo stored user).variant? stage = (stored.record.variants.get stage).map b.readsBack :=
  b.get_handsOut stored stage

end

/-- An operation that the hints allow leaves the record `r` in the place of the one in hand
and changes nothing besides. It asks for the time and for names at most. -/
structure Rewrites (ctx : Context) (h : Handle) (op : Operation) (path : List Taken) (r : Record)
    (t : Transaction) : Prop where
  allows : (Hints.ofHandle h).allows op ctx.arguments.request = true
  effect : Effect ctx h op path r t
  asks : ∀ step ∈ path, ∀ s, step.AnsweredBy s
  id : r.id = h.record.id
  location : r.location = h.record.location
  deletes : t.deletes = false
  staged : t.staged = []

/-- What such an operation leaves of a document that could be handed out can be handed out
again, if what was given for an update can. -/
theorem Rewrites.canRead {b : Backend} {stored : Stored} {user : String} {ctx : Context}
    {op : Operation} {path : List Taken} {r : Record} {t : Transaction}
    (h : Rewrites ctx (b.handTo stored user) op path r t)
    (hreadable : b.canRead stored.record = true)
    (hgiven : op = .update →
      ∀ content, ctx.arguments.content = some content → b.canReadContent content = true) :
    b.canRead r = true :=
  Backend.canRead_iff.2 (h.effect.allContents_record
    (Backend.canRead_iff.1 (Backend.canRead_handsOut hreadable)) hgiven)

namespace Desk

variable {desk : Desk} {id user : String} {op : Operation} {arguments : Arguments}
  {path : List Taken} {stored : Stored} {f : Failure}

/-! ## Operations that fail -/

/-- An operation that fails on the record that is loaded has failed. -/
theorem leads_read_error (htable : desk.table = .standard) {w : Work}
    (hfire : ((Table.standard.fire ⟨arguments, desk.settings.folderCategory⟩ op).on
      ⟨⟨stored.record, stored.revision, user⟩, {}⟩).Leads path (some (.error f, w))) :
    (desk.read id user op arguments).run.Leads (.load id (some stored) :: path)
      (some (.error f)) := by
  rw [run_read, htable, Process.leads_ask]
  exact ⟨.ok (some stored), path, rfl, (Process.leads_map _ _ _ _).2 ⟨_, hfire, rfl⟩⟩

/-- A failure ends what is to go on from it. -/
theorem leads_bind_error {α β : Type} {flow : Flow α} {next : α → Flow β}
    (hl : flow.run.Leads path (some (.error f))) :
    (flow >>= next).run.Leads path (some (.error f)) := by
  rw [Flow.run_bind, Process.leads_bind_some]
  exact ⟨path, [], _, (List.append_nil path).symm, hl, (Process.leads_done _ _ _).2 ⟨rfl, rfl⟩⟩

theorem leads_attempt_error
    (hread : (desk.read id user op arguments).run.Leads path (some (.error f))) :
    (desk.attempt id user op arguments).run.Leads path (some (.error f)) := by
  rw [attempt_eq]
  unfold prepare
  exact leads_bind_error (leads_bind_error hread)

/-- After a failure there is no other attempt. -/
theorem leads_execute_error
    (hread : (desk.read id user op arguments).run.Leads path (some (.error f))) :
    (desk.execute id user op arguments).run.Leads path (some (.error f)) := by
  unfold execute
  cases op.isReadOnly with
  | true =>
      rw [if_pos rfl]
      exact leads_bind_error hread
  | false =>
      rw [if_neg Bool.false_ne_true]
      unfold Retry.run
      cases desk.settings.retry.attempts - 1 with
      | zero =>
          rw [Retry.runFrom]
          exact leads_bind_error (leads_attempt_error hread)
      | succ left =>
          rw [Retry.runFrom]
          exact leads_bind_error (leads_attempt_error hread)

/-- A call whose operation fails has failed. -/
theorem leads_change_error (give : Arguments → Arguments) (begun : Instant)
    (hread : (desk.read id user op (give { now := begun })).run.Leads path (some (.error f))) :
    (desk.change id user op give).run.Leads (.now begun :: path) (some (.error f)) := by
  unfold change
  rw [Flow.run_bind]
  exact (Process.leads_ask_cons _ _ _ _ _).2 (leads_bind_error (leads_execute_error hread))

theorem leads_fetch_error (give : Arguments → Arguments) (begun : Instant)
    (hread : (desk.read id user op (give { now := begun })).run.Leads path (some (.error f))) :
    (desk.fetch id user op give).run.Leads (.now begun :: path) (some (.error f)) := by
  unfold fetch
  rw [Flow.run_bind]
  exact (Process.leads_ask_cons _ _ _ _ _).2 (leads_bind_error (leads_execute_error hread))

end Desk

namespace System

/-- In `s'` the document that `s` has stored as `id` is `r`, at the next revision, and `r` is
sound; all else is as it was, and every record is where it belongs. -/
structure Replaces (s : System) (id : String) (stored : Stored) (r : Record) (s' : System) :
    Prop where
  backend : s'.backend = s.backend
  folders : s'.folders = s.folders
  replaced : s'.store.get? id = some ⟨r, stored.revision + 1⟩
  others : ∀ other, other ≠ id → s'.store.get? other = s.store.get? other
  sound : r.IsSound
  filed : s'.store.Filed
  spread : s'.store.Spread

variable {desk : Desk} {s : System} {id user : String} {stored : Stored} {call : Call}
  {op : Operation} {arguments : Arguments} {path : List Taken} {r : Record} {t : Transaction}
  {readings : Readings}

/-- A call that runs alone stores what its operation leaves of the record. -/
theorem exists_replaces (htable : desk.table = .standard) (hfiled : s.store.Filed)
    (hspread : s.store.Spread) (hget : s.store.get? id = some stored)
    (hreadable : s.backend.canRead stored.record = true) (hsound : stored.record.IsSound)
    (hrewrites : Rewrites ⟨arguments, desk.settings.folderCategory⟩
      (s.backend.handTo stored user) op path r t) {reply : Reply}
    (hl : ∀ {path changes}, desk.Prepares id user op arguments path changes t → ∀ now,
      (desk.answer id user call).run.Leads
        (.now (readings.clock 0) :: path ++ Desk.settling id user op changes t now)
        (some (.ok reply))) (hgives : readings.Gives 2 path) :
    ∃ s', s.runAt readings (desk.process (.call id user call)) =
        (some (.ok (.reply reply)), s') ∧ s.Replaces id stored r s' := by
  let loaded := s.backend.handsOut stored
  have hleft : r.IsSound :=
    hrewrites.effect.isSound hrewrites.allows (s.backend.isSound_handsOut hsound)
  have hprepares : desk.Prepares id user op arguments (.load id (some loaded) :: path)
      [.put r (some loaded.revision)] t := by
    have hchanges : Desk.changes id ⟨⟨r, loaded.revision, user⟩, t⟩ =
        .ok (.put r (some loaded.revision) :: t.staged) :=
      Desk.changes_eq hrewrites.deletes ((Record.check_eq_ok_iff r).2 hleft)
    rw [hrewrites.staged] at hchanges
    exact .loaded hrewrites.allows hrewrites.effect hchanges
  have hrid : r.id = id :=
    (hrewrites.id.trans (s.backend.id_handsOut stored)).trans (hfiled id stored hget)
  have hrevision : loaded.revision = stored.revision := s.backend.revision_handsOut stored
  have hcommit : (s.backend.commit s.store [.put r (some loaded.revision)]).1 = .committed := by
    rw [hrevision]
    exact Store.commit_replace hspread s.backend (hrid ▸ hget)
      (hrewrites.location.trans (s.backend.location_handsOut stored))
  have hanswered : ∀ step ∈ .load id (some loaded) :: path, step.AnsweredBy s :=
    List.forall_mem_cons.2 ⟨(Backend.load_of_canRead hget hreadable).symm,
      fun step hm => hrewrites.asks step hm s⟩
  obtain ⟨s', hrun, hsame⟩ :=
    runAt_answer htable hprepares (hl hprepares) hanswered ⟨trivial, hgives⟩ hcommit
  have hstore : s'.store = s.store.applyAll [.put r (some loaded.revision)] :=
    hsame.store.trans (Backend.commit_of_committed hcommit)
  refine ⟨s', hrun, hsame.backend, hsame.folders, ?_, fun other hother => ?_, hleft, ?_, ?_⟩
  · rw [hstore, ← hrevision, ← hrid]
    exact s.store.get?_applyAll_put r (some loaded.revision)
  · rw [hstore]
    exact Store.get?_applyAll_of_notMem fun hm => hother ((List.mem_singleton.1 hm).trans hrid)
  · rw [hsame.store]
    exact hfiled.commit s.backend _
  · rw [hsame.store]
    exact hspread.commit s.backend _

/-- A call of which the caller only learns that it was carried out. -/
theorem exists_replaces_change (htable : desk.table = .standard) (hfiled : s.store.Filed)
    (hspread : s.store.Spread) (hget : s.store.get? id = some stored)
    (hreadable : s.backend.canRead stored.record = true) (hsound : stored.record.IsSound)
    (hop : op.isReadOnly = false) {give : Arguments → Arguments}
    (hcall : desk.answer id user call = desk.change id user op give)
    (hrewrites : Rewrites ⟨give { now := readings.clock 0 }, desk.settings.folderCategory⟩
      (s.backend.handTo stored user) op path r t) (hgives : readings.Gives 2 path) :
    ∃ s', s.runAt readings (desk.process (.call id user call)) =
        (some (.ok (.reply .done)), s') ∧ s.Replaces id stored r s' :=
  exists_replaces htable hfiled hspread hget hreadable hsound hrewrites
    (fun hprepares now => hcall ▸ Desk.leads_change htable hop give _ hprepares now) hgives

/-- A call that hands back the document it is given. -/
theorem exists_replaces_fetch (htable : desk.table = .standard) (hfiled : s.store.Filed)
    (hspread : s.store.Spread) (hget : s.store.get? id = some stored)
    (hreadable : s.backend.canRead stored.record = true) (hsound : stored.record.IsSound)
    (hop : op.isReadOnly = false) {give : Arguments → Arguments}
    (hcall : desk.answer id user call = desk.fetch id user op give)
    (hrewrites : Rewrites ⟨give { now := readings.clock 0 }, desk.settings.folderCategory⟩
      (s.backend.handTo stored user) op path r t) {d : Document} (hd : t.result = some d)
    (hgives : readings.Gives 2 path) :
    ∃ s', s.runAt readings (desk.process (.call id user call)) =
        (some (.ok (.reply (.document d))), s') ∧ s.Replaces id stored r s' :=
  exists_replaces htable hfiled hspread hget hreadable hsound hrewrites
    (fun hprepares now => hcall ▸ Desk.leads_fetch htable hop give _ hprepares hd now) hgives

/-- A call that runs alone and whose operation fails on the record leaves the store. -/
theorem exists_unchanged (htable : desk.table = .standard)
    (hget : s.store.get? id = some stored)
    (hreadable : s.backend.canRead stored.record = true) {f : Failure} {w : Work}
    (hfire : ((Table.standard.fire ⟨arguments, desk.settings.folderCategory⟩ op).on
      ⟨s.backend.handTo stored user, {}⟩).Leads path (some (.error f, w)))
    (hl : (desk.read id user op arguments).run.Leads
        (.load id (some (s.backend.handsOut stored)) :: path) (some (.error f)) →
      (desk.answer id user call).run.Leads
        (.now (readings.clock 0) :: .load id (some (s.backend.handsOut stored)) :: path)
        (some (.error f)))
    (hanswered : ∀ step ∈ path, step.AnsweredBy s) (hgives : readings.Gives 2 path) :
    ∃ s', s.runAt readings (desk.process (.call id user call)) = (some (.error f), s') ∧
      SameData s s' := by
  let opening : List Taken :=
    .now (readings.clock 0) :: .load id (some (s.backend.handsOut stored)) :: path
  have hreads : ∀ step ∈ opening, step.query.IsReading := by
    refine List.forall_mem_cons.2 ⟨trivial, List.forall_mem_cons.2 ⟨trivial, ?_⟩⟩
    exact Table.isReading_of_leads_fire hfire
  have hanswered' : ∀ step ∈ opening, step.AnsweredBy s :=
    List.forall_mem_cons.2 ⟨trivial, List.forall_mem_cons.2
      ⟨(Backend.load_of_canRead hget hreadable).symm, hanswered⟩⟩
  obtain ⟨s', htold, hsame, -⟩ :=
    exists_told (s := (s, 0)) hreads hanswered' ⟨rfl, trivial, hgives⟩
  have hprocess : (desk.process (.call id user call)).Leads opening (some (.error f)) := by
    rw [Desk.process_call]
    exact (Process.leads_map _ _ _ _).2 ⟨_, hl (Desk.leads_read_error htable hfire), rfl⟩
  exact ⟨s'.1, runAt_of_leads hprocess htold, hsame⟩

end System

end Editorial
