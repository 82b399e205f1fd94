import Editorial.Proofs.Desk.Replacing
import Editorial.Proofs.Hints.Pending

/-!
# Calls with dates

Publishing a document and taking it offline can be given a date, and three comparisons
decide whether it has come. A call with a date asks whether the date is at or before the
time at which it begins, accepting a request asks whether its date is after that time, and
a scheduled request is run if its date is at or before a time that the caller names. They
are written down in three places, one of them the other way round, and for the two
directions separately. They agree all the same, at the date itself too: what the second
puts off the third does not find due, and the reverse.

What becomes of the record then does not depend on the route by which the change comes
about, but for the request, which is no longer there.

## Main results

* `Request.isDue_eq` — a scheduled request is due exactly if it would not be put off.
* `Switch.exists_effect` — what is allowed can be done.
* `Switch.runAt_call_of_le` — a call with a date that has come is the call without it.
* `System.exists_replaces_postponed`, `System.exists_replaces_accept`,
  `System.exists_replaces_accept_early`, `System.exists_replaces_run`,
  `System.exists_unchanged_run_early` — what comes of the other calls.
-/

namespace Editorial

/-! ## Comparisons -/

namespace Request

variable {q : Request} {date now : Instant}

theorem isDeferred_iff (hdate : q.scheduledAt = some date) :
    q.isDeferred now = true ↔ now < date := by
  unfold isDeferred
  rw [hdate]
  simp

theorem isDeferred_eq_false_iff (hdate : q.scheduledAt = some date) :
    q.isDeferred now = false ↔ date ≤ now := by
  rw [← Bool.not_eq_true, isDeferred_iff hdate, Instant.not_lt]

/-- A scheduled request is due exactly if it would not be put off. -/
theorem isDue_eq (hkind : q.kind.isScheduled = true) (hdate : q.scheduledAt = some date) :
    q.isDue now = !q.isDeferred now := by
  unfold isDue isDeferred
  rw [hkind, hdate, Bool.eq_iff_iff]
  simp [Instant.not_lt]

theorem isDue_iff (hkind : q.kind.isScheduled = true) (hdate : q.scheduledAt = some date) :
    q.isDue now = true ↔ date ≤ now := by
  rw [isDue_eq hkind hdate, Bool.not_eq_true', isDeferred_eq_false_iff hdate]

theorem isDue_eq_false_iff (hkind : q.kind.isScheduled = true)
    (hdate : q.scheduledAt = some date) : q.isDue now = false ↔ now < date := by
  rw [← Bool.not_eq_true, isDue_iff hkind hdate, Instant.not_le]

end Request

/-! ## Switches -/

/-- What can be given a date. -/
inductive Switch where
  /-- Publish a document. -/
  | publish
  /-- Take it offline. -/
  | depublish
deriving DecidableEq

namespace Switch

/-- The call for it, at some date if one is given. -/
def call : Switch → Option Instant → Call
  | publish => .publish
  | depublish => .depublish

/-- The operation that makes the switch at once. -/
def operation : Switch → Operation
  | publish => .publish
  | depublish => .depublish

/-- The operation that leaves it to a later date. -/
def postponing : Switch → Operation
  | publish => .schedulePublish
  | depublish => .scheduleDepublish

/-- The kind of the requests for it. -/
def requested : Switch → RequestKind
  | publish => .publication
  | depublish => .depublication

/-- The kind of the requests that wait for their date. -/
def scheduled : Switch → RequestKind
  | publish => .scheduledPublication
  | depublish => .scheduledDepublication

/-- By the switch the record `before` becomes `r`, in the hands of the user. The times, and
the name of a variant that is made, are read from step `n` on. -/
inductive Makes (readings : Readings) (n : Nat) (user : String) (before : Record) :
    Switch → Record → Prop
  | shown {u : Variant} (hu : before.variants.get .unpublished = some u)
      (hp : before.variants.get .published = none) :
      Makes readings n user before .publish
        (before.putVariant .published (some
          (.entering .published (readings.names (n + 1)) u.content user (readings.clock n)
            (some (readings.clock (n + 2))))))
  | hidden {u p : Variant} (hu : before.variants.get .unpublished = some u)
      (hp : before.variants.get .published = some p) :
      Makes readings n user before .depublish (before.putVariant .published none)
  | demoted {p : Variant} (hu : before.variants.get .unpublished = none)
      (hp : before.variants.get .published = some p) :
      Makes readings n user before .depublish
        ((before.putVariant .published none).putVariant .unpublished
          (some (p.moved .unpublished none)))

section

variable {readings : Readings} {n : Nat} {user : String} {before r : Record} {sw : Switch}

theorem Makes.id_eq (h : sw.Makes readings n user before r) : r.id = before.id := by
  cases h <;> rfl

theorem Makes.location_eq (h : sw.Makes readings n user before r) :
    r.location = before.location := by
  cases h <;> rfl

end

variable (sw : Switch) {h : Handle} {q : Request}

theorem resolving?_of_requested (hkind : q.kind = sw.requested) :
    Operation.resolving? q.kind = some sw.operation := by
  rw [hkind]
  cases sw <;> rfl

theorem resolving?_of_scheduled (hkind : q.kind = sw.scheduled) :
    Operation.resolving? q.kind = some sw.operation := by
  rw [hkind]
  cases sw <;> rfl

theorem isScheduled_of_scheduled (hkind : q.kind = sw.scheduled) :
    q.kind.isScheduled = true := by
  rw [hkind]
  cases sw <;> rfl

/-- In a sound record a scheduled request is the one that is pending. -/
theorem pending?_of_scheduled {r : Record} (hs : r.IsSound) (hq : q ∈ r.requests)
    (hkind : q.kind = sw.scheduled) : r.pending? = some q := by
  refine hs.pending?_eq hq ?_
  rw [hkind]
  cases sw <;> rfl

theorem exists_of_isScheduled {kind : RequestKind} (h : kind.isScheduled = true) :
    ∃ sw : Switch, kind = sw.scheduled := by
  cases kind <;> first | exact ⟨.publish, rfl⟩ | exact ⟨.depublish, rfl⟩ | cases h

/-! ## Effects -/

variable (ctx : Context)

/-- What is allowed can be done. What that takes is told from outside only. -/
theorem exists_effect (hallows : h.allows sw.operation = true) (readings : Readings) (n : Nat) :
    ∃ path r, Effect ctx h sw.operation path r {} ∧ sw.Makes readings n h.user h.record r ∧
      readings.Gives n path ∧ ∀ step ∈ path, ∀ s, step.AnsweredBy s := by
  cases sw with
  | publish =>
      obtain ⟨u, hu⟩ := Handle.exists_unpublished_of_allows (by simp [operation]) hallows
      have hp := Handle.published_eq_none_of_allows hallows
      refine ⟨[.now (readings.clock n), .fresh .variant (readings.names (n + 1)),
        .now (readings.clock (n + 2))], _, .publish hu hp, .shown hu hp,
        ⟨rfl, rfl, rfl, trivial⟩, ?_⟩
      simp [Taken.AnsweredBy]
  | depublish =>
      obtain ⟨p, hp⟩ := Handle.exists_published_of_allows hallows
      cases hu : h.variant? .unpublished with
      | some u => exact ⟨[], _, .withdraw hu hp, .hidden hu hp, trivial, List.forall_mem_nil _⟩
      | none => exact ⟨[], _, .demote hu hp, .demoted hu hp, trivial, List.forall_mem_nil _⟩

/-- Without a request for it that fits, a switch is allowed. -/
theorem allows_dropRequest (hs : h.record.IsSound) (hf : h.record.Fits)
    (hq : h.record.pending? = some q) (hop : Operation.resolving? q.kind = some sw.operation) :
    (h.withRecord (h.record.dropRequest q.id)).allows sw.operation = true := by
  have hdeletion : q.kind ≠ .deletion := by
    intro hk
    rw [hk] at hop
    cases sw <;> cases hop
  -- The guard of a request was written apart from that of the operation it asks for.
  obtain ⟨op, hop', hallows⟩ :=
    (Handle.canCarryOut_iff h q).1 (Handle.canCarryOut_of_fits hs hf hq hdeletion)
  rw [hop, Option.some.injEq] at hop'
  rw [hop']
  exact hallows

theorem exists_rewrites
    (hallows : (Hints.ofHandle h).allows sw.operation ctx.arguments.request = true)
    (readings : Readings) (n : Nat) :
    ∃ path r, Rewrites ctx h sw.operation path r {} ∧ sw.Makes readings n h.user h.record r ∧
      readings.Gives n path := by
  have hscoped : sw.operation.isRequestScoped = false := by cases sw <;> rfl
  obtain ⟨path, r, heffect, hmakes, hgives, hasks⟩ := sw.exists_effect ctx
    ((Hints.allows_eq h hscoped _).symm.trans hallows) readings n
  exact ⟨path, r, ⟨hallows, heffect, hasks, hmakes.id_eq, hmakes.location_eq, rfl, rfl⟩, hmakes,
    hgives⟩

/-- What is allowed can be left to a later date. -/
theorem rewrites_postponing
    (hallows : (Hints.ofHandle h).allows sw.operation ctx.arguments.request = true)
    (hdate : ctx.arguments.date.isSome = true) (name : String) (now : Instant) :
    Rewrites ctx h sw.postponing [.fresh .request name, .now now]
      { h.record with
        requests := h.record.requests ++
          [⟨name, sw.scheduled, ctx.arguments.date, none, h.user, now⟩] }
      { request := some name } where
  allows := by
    rw [Hints.allows_eq h (by cases sw <;> rfl)] at hallows ⊢
    cases sw <;> exact hallows
  effect := .file (by cases sw <;> rfl) fun _ => hdate
  asks := by simp [Taken.AnsweredBy]
  id := rfl
  location := rfl
  deletes := rfl
  staged := rfl

/-! ## Requests -/

section

variable (hs : h.record.IsSound) (hf : h.record.Fits)
include hs hf

/-- A request that is accepted once its date has come makes the switch. -/
theorem exists_rewrites_accept (hids : (h.record.requests.map Request.id).Nodup)
    (hq : q ∈ h.record.requests) (hkind : q.kind = sw.requested)
    (hid : ctx.arguments.request = some q.id)
    (hnow : q.isDeferred ctx.arguments.now = false) (readings : Readings) (n : Nat) :
    ∃ path r, Rewrites ctx h .acceptRequest path r {} ∧
      sw.Makes readings n h.user (h.record.dropRequest q.id) r ∧ readings.Gives n path := by
  have hpending : q.kind.isPending = true := by
    rw [hkind]
    cases sw <;> rfl
  have hdecides : q.kind = .publication ∨ q.kind = .depublication := by
    rw [hkind]
    cases sw <;> simp [requested]
  have hop := sw.resolving?_of_requested hkind
  have hallows := sw.allows_dropRequest hs hf (hs.pending?_eq hq hpending) hop
  obtain ⟨path, r, heffect, hmakes, hgives, hasks⟩ := sw.exists_effect ctx hallows readings n
  refine ⟨path, r, ⟨?_, ?_, hasks, hmakes.id_eq, hmakes.location_eq, rfl, rfl⟩, hmakes, hgives⟩
  · rw [hid]
    exact Handle.allows_acceptRequest_of_fits hs hf hids hq hdecides
  · exact .accept hid (Record.request?_id hids hq) (Or.inl hnow) hop hallows heffect

/-- A request that is accepted before its date becomes a scheduled one. -/
theorem rewrites_accept_early (hids : (h.record.requests.map Request.id).Nodup)
    (hq : q ∈ h.record.requests) (hkind : q.kind = sw.requested)
    (hid : ctx.arguments.request = some q.id) (hnow : q.isDeferred ctx.arguments.now = true) :
    Rewrites ctx h .acceptRequest []
      (h.record.changeRequest q.id fun q => { q with kind := sw.scheduled }) {} where
  allows := by
    rw [hid]
    refine Handle.allows_acceptRequest_of_fits hs hf hids hq ?_
    rw [hkind]
    cases sw <;> simp [requested]
  effect := by
    refine .schedule hid (Record.request?_id hids hq) hnow ?_
    rw [hkind]
    cases sw <;> rfl
  asks := List.forall_mem_nil _
  id := rfl
  location := rfl
  deletes := rfl
  staged := rfl

/-- A scheduled request that is run once its date has come makes the switch. -/
theorem exists_rewrites_run (hq : h.record.pending? = some q) (hkind : q.kind = sw.scheduled)
    (hdue : q.isDue ctx.arguments.now = true) (readings : Readings) (n : Nat) :
    ∃ path r, Rewrites ctx h .runScheduled path r {} ∧
      sw.Makes readings n h.user (h.record.dropRequest q.id) r ∧ readings.Gives n path := by
  have hop := sw.resolving?_of_scheduled hkind
  have hallows := sw.allows_dropRequest hs hf hq hop
  obtain ⟨path, r, heffect, hmakes, hgives, hasks⟩ := sw.exists_effect ctx hallows readings n
  refine ⟨path, r, ⟨?_, ?_, hasks, hmakes.id_eq, hmakes.location_eq, rfl, rfl⟩, hmakes, hgives⟩
  · exact Handle.allows_runScheduled_of_fits hs hf hq (sw.isScheduled_of_scheduled hkind) _
  · exact .runScheduled hq hdue hop hallows heffect

end

/-! ## Calls -/

variable {desk : Desk} {id user : String} {date : Instant}

theorem answer_call (desk : Desk) (id user : String) :
    desk.answer id user (sw.call none) = desk.change id user sw.operation := by
  cases sw <;> rfl

theorem answer_call_date (desk : Desk) (id user : String) (date : Instant) :
    desk.answer id user (sw.call (some date)) =
      desk.changeAt id user sw.operation sw.postponing date := by
  cases sw <;> rfl

/-- A call with a date that has come is the call without it, which begins later. -/
theorem runAt_call_of_le {readings : Readings} (hdate : date ≤ readings.clock 0) (s : System) :
    s.runAt readings (desk.process (.call id user (sw.call (some date)))) =
      s.runAt readings.rest (desk.process (.call id user (sw.call none))) := by
  rw [Desk.process_call, Desk.process_call, answer_call_date, answer_call]
  unfold Desk.changeAt
  rw [Flow.run_bind]
  refine System.runAt_now_now readings ?_ s
  show Process.bind (ExceptT.run (if date ≤ readings.clock 0 then _ else _)) _ = _
  rw [if_pos hdate]
  rfl

end Switch

/-- A scheduled request cannot be run before its date. -/
theorem Table.leads_fire_runScheduled_early (ctx : Context) {h : Handle} {q : Request}
    (ha : (Hints.ofHandle h).allows .runScheduled ctx.arguments.request = true)
    (hq : h.record.pending? = some q) (hkind : q.kind.isScheduled = true)
    (hdue : q.isDue ctx.arguments.now = false) :
    ((standard.fire ctx .runScheduled).on ⟨h, {}⟩).Leads []
      (some (.error (.state (.notDue q.kind q.id q.scheduledAt)), ⟨h, {}⟩)) := by
  unfold fire depthLimit
  rw [on_standard_single ha rfl, Task.run, Task.on_runScheduledRequest]
  simp only [hq, Option.filter_some, hkind, hdue, if_true, Bool.false_eq_true, if_false,
    Process.bind_done]
  exact (Process.leads_done _ _ _).2 ⟨rfl, rfl⟩

/-! ## Calls that run alone -/

namespace System

section

variable {desk : Desk} {s : System} {id : String} {stored : Stored} {names : List String}
  (sw : Switch) {q : Request} {date : Instant}
  (htable : desk.table = .standard) (hfiled : s.store.Filed) (hspread : s.store.Spread)
  (hget : s.store.get? id = some stored) (hreadable : s.backend.canRead stored.record = true)
  (hfit : stored.record.IsFit names)
include htable hget hreadable hfit

/-- A scheduled request that is run before its date is left as it is. -/
theorem exists_unchanged_run_early (hq : q ∈ stored.record.requests)
    (hkind : q.kind = sw.scheduled) (hdate : q.scheduledAt = some date) {now : Instant}
    (hnow : now < date) (user : String) (readings : Readings) :
    ∃ s', s.runAt readings (desk.process (.call id user (.runScheduled now))) =
      (some (.error (.state (.notDue q.kind q.id (some date)))), s') ∧ SameData s s' := by
  let h := s.backend.handTo stored user
  have hloaded : h.record.IsFit names := s.backend.isFit_handsOut hfit
  have hscheduled := sw.isScheduled_of_scheduled hkind
  have hpending : h.record.pending? = some q := by
    rw [Backend.record_handTo, Backend.pending?_handsOut]
    exact sw.pending?_of_scheduled hfit.sound hq hkind
  have hfire := Table.leads_fire_runScheduled_early
    ⟨{ now := now }, desk.settings.folderCategory⟩
    (Handle.allows_runScheduled_of_fits hloaded.sound hloaded.fits hpending hscheduled none)
    hpending hscheduled ((Request.isDue_eq_false_iff hscheduled hdate).2 hnow)
  rw [hdate] at hfire
  exact exists_unchanged htable hget hreadable hfire
    (Desk.leads_change_error (fun a => { a with now := now }) _) (List.forall_mem_nil _) trivial

include hfiled hspread

/-- A call makes the switch if its operation does. -/
theorem exists_replaces_of_makes {user : String} {call : Call} {op : Operation}
    {give : Arguments → Arguments} {before : Record} {readings : Readings}
    (hop : op.isReadOnly = false)
    (hcall : desk.answer id user call = desk.change id user op give)
    (h : ∃ path r, Rewrites ⟨give { now := readings.clock 0 }, desk.settings.folderCategory⟩
      (s.backend.handTo stored user) op path r {} ∧ sw.Makes readings 2 user before r ∧
        readings.Gives 2 path) :
    ∃ s' r, s.runAt readings (desk.process (.call id user call)) =
        (some (.ok (.reply .done)), s') ∧ s.Replaces id stored r s' ∧
      sw.Makes readings 2 user before r := by
  obtain ⟨path, r, hrewrites, hmakes, hgives⟩ := h
  obtain ⟨s', hrun, hreplaces⟩ := exists_replaces_change htable hfiled hspread hget hreadable
    hfit.sound hop hcall hrewrites hgives
  exact ⟨s', r, hrun, hreplaces, hmakes⟩

/-- A call without a date makes the switch, if it is allowed. -/
theorem exists_replaces_switch {user : String}
    (hallows : (Hints.ofHandle (s.backend.handTo stored user)).allows sw.operation none = true)
    (readings : Readings) :
    ∃ s' r, s.runAt readings (desk.process (.call id user (sw.call none))) =
        (some (.ok (.reply .done)), s') ∧ s.Replaces id stored r s' ∧
      sw.Makes readings 2 user (s.backend.handsOut stored).record r := by
  have hop : sw.operation.isReadOnly = false := by cases sw <;> rfl
  exact exists_replaces_of_makes sw htable hfiled hspread hget hreadable hfit hop
    (sw.answer_call desk id user) (sw.exists_rewrites _ hallows readings 2)

/-- A call with a date that has not come files one request for that date. -/
theorem exists_replaces_postponed {user : String}
    (hallows : (Hints.ofHandle (s.backend.handTo stored user)).allows sw.operation none = true)
    {readings : Readings} (hdate : readings.clock 0 < date) :
    ∃ s', s.runAt readings (desk.process (.call id user (sw.call (some date)))) =
        (some (.ok (.reply .done)), s') ∧
      s.Replaces id stored
        { (s.backend.handsOut stored).record with
          requests := stored.record.requests ++
            [⟨readings.names 2, sw.scheduled, some date, none, user, readings.clock 3⟩] } s' := by
  have hrewrites := sw.rewrites_postponing
    ⟨{ date := some date, now := readings.clock 0 }, desk.settings.folderCategory⟩
    hallows rfl (readings.names 2) (readings.clock 3)
  rw [Backend.record_handTo, Backend.requests_handsOut] at hrewrites
  have hop : sw.postponing.isReadOnly = false := by cases sw <;> rfl
  refine exists_replaces htable hfiled hspread hget hreadable hfit.sound hrewrites ?_
    ⟨rfl, rfl, trivial⟩
  intro path changes hprepares now
  rw [sw.answer_call_date]
  unfold Desk.changeAt
  rw [Flow.run_bind]
  refine (Process.leads_ask_cons _ _ _ _ _).2 ?_
  show Process.Leads (ExceptT.run (if date ≤ readings.clock 0 then _ else _)) _ _
  rw [if_neg (Instant.not_le.2 hdate)]
  exact Desk.leads_execute_bind htable hop hprepares rfl now

/-- A request that is accepted once its date has come makes the switch. -/
theorem exists_replaces_accept (hq : q ∈ stored.record.requests) (hkind : q.kind = sw.requested)
    (hdate : q.scheduledAt = some date) (user : String) {readings : Readings}
    (hnow : date ≤ readings.clock 0) :
    ∃ s' r, s.runAt readings (desk.process (.call id user (.acceptRequest q.id))) =
        (some (.ok (.reply .done)), s') ∧ s.Replaces id stored r s' ∧
      sw.Makes readings 2 user ((s.backend.handsOut stored).record.dropRequest q.id) r := by
  have hloaded := s.backend.isFit_handsOut hfit
  have hq' : q ∈ (s.backend.handsOut stored).record.requests := by
    rwa [Backend.requests_handsOut]
  have hcall : desk.answer id user (.acceptRequest q.id) =
    desk.change id user .acceptRequest fun a => { a with request := some q.id } := rfl
  exact exists_replaces_of_makes sw htable hfiled hspread hget hreadable hfit rfl hcall
    (sw.exists_rewrites_accept _ hloaded.sound hloaded.fits hloaded.distinct hq' hkind rfl
      ((Request.isDeferred_eq_false_iff hdate).2 hnow) readings 2)

/-- A request that is accepted before its date becomes a scheduled one. -/
theorem exists_replaces_accept_early (hq : q ∈ stored.record.requests)
    (hkind : q.kind = sw.requested) (hdate : q.scheduledAt = some date) (user : String)
    {readings : Readings} (hnow : readings.clock 0 < date) :
    ∃ s', s.runAt readings (desk.process (.call id user (.acceptRequest q.id))) =
        (some (.ok (.reply .done)), s') ∧
      s.Replaces id stored ((s.backend.handsOut stored).record.changeRequest q.id fun q =>
        { q with kind := sw.scheduled }) s' := by
  have hloaded := s.backend.isFit_handsOut hfit
  have hq' : q ∈ (s.backend.handsOut stored).record.requests := by
    rwa [Backend.requests_handsOut]
  have hrewrites := sw.rewrites_accept_early
    ⟨{ request := some q.id, now := readings.clock 0 }, desk.settings.folderCategory⟩
    (h := s.backend.handTo stored user) hloaded.sound hloaded.fits hloaded.distinct hq' hkind rfl
    ((Request.isDeferred_iff hdate).2 hnow)
  have hcall : desk.answer id user (.acceptRequest q.id) =
    desk.change id user .acceptRequest fun a => { a with request := some q.id } := rfl
  exact exists_replaces_change htable hfiled hspread hget hreadable hfit.sound rfl hcall hrewrites
    trivial

/-- A scheduled request that is run once its date has come makes the switch. -/
theorem exists_replaces_run (hq : q ∈ stored.record.requests) (hkind : q.kind = sw.scheduled)
    (hdate : q.scheduledAt = some date) {now : Instant} (hnow : date ≤ now) (user : String)
    (readings : Readings) :
    ∃ s' r, s.runAt readings (desk.process (.call id user (.runScheduled now))) =
        (some (.ok (.reply .done)), s') ∧ s.Replaces id stored r s' ∧
      sw.Makes readings 2 user ((s.backend.handsOut stored).record.dropRequest q.id) r := by
  have hloaded := s.backend.isFit_handsOut hfit
  have hscheduled := sw.isScheduled_of_scheduled hkind
  have hpending : (s.backend.handsOut stored).record.pending? = some q := by
    rw [Backend.pending?_handsOut]
    exact sw.pending?_of_scheduled hfit.sound hq hkind
  have hcall : desk.answer id user (.runScheduled now) =
    desk.change id user .runScheduled fun a => { a with now := now } := rfl
  exact exists_replaces_of_makes sw htable hfiled hspread hget hreadable hfit rfl hcall
    (sw.exists_rewrites_run _ hloaded.sound hloaded.fits hpending hkind
      ((Request.isDue_iff hscheduled hdate).2 hnow) readings 2)

end

end System

end Editorial
