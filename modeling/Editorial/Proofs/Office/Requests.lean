import Editorial.Proofs.Hints.Requests
import Editorial.Proofs.Office.Changes
import Editorial.Proofs.Office.Pending

/-!
# The life of a request

A request is known by its id, whichever document it is on and whatever has become of it.
What a commit makes of it can be told from the store just before, as it can for a
document. The rest is about ids: who files a request holds the id of it until the commit,
and nobody else does; from then on the id is spent. So no two documents have a request of
one id, and a request that is gone does not come back.

## Main results

* `requestStep` — what one move makes of a request.
* `requests_live` — what becomes of requests in every run of an office.
-/

namespace Editorial

/-- The request `n` on the document `id`. -/
def Store.request? (s : Store) (id n : String) : Option Request := do
  (← s.get? id).record.request? n

/-- What becomes of a request as long as it is there. Nobody changes who asked for it, when,
and the date; a request that is scheduled or rejected stays what it is. -/
inductive Request.Becomes (q : Request) : Request → Prop
  | same : q.Becomes q
  | scheduled {kind : RequestKind} (hkind : Task.scheduledKind? q.kind = some kind) :
      q.Becomes { q with kind := kind }
  | rejected {reason? : Option String}
      (hkind : q.kind = .publication ∨ q.kind = .depublication ∨ q.kind = .deletion) :
      q.Becomes { q with kind := .rejected, reason := reason? }

/-- What may become of the request `n` on the document `id` in a move that makes the commit of
the client `c?`, or none, and leaves `after?` of the document. -/
inductive RequestStep (id n : String) (after? : Option Stored) :
    Option Client → Option Request → Option Request → Prop
  | left {c? : Option Client} {q? : Option Request} : RequestStep id n after? c? q? q?
  /-- The name `n` was given to the client since its last commit. -/
  | filed {c : Client} {user : String} {call : Call} {op : Operation} {arguments : Arguments}
      {kind : RequestKind} {t : Instant} (hjob : c.job = .call id user call)
      (hasks : call.Asks op arguments) (hop : op.filed? = some kind)
      (hfresh : n ∈ unused c.journal) :
      RequestStep id n after? (some c) none
        (some ⟨n, kind, arguments.date, none, user, t⟩)
  /-- The date is after the instant at which the call began. -/
  | scheduled {c : Client} {user : String} {q : Request} {kind : RequestKind}
      {begun date : Instant} (hjob : c.job = .call id user (.acceptRequest n))
      (hbegun : c.journal.head? = some (.now begun)) (hdate : q.scheduledAt = some date)
      (hlater : begun < date) (hkind : Task.scheduledKind? q.kind = some kind) :
      RequestStep id n after? (some c) (some q) (some { q with kind := kind })
  | rejected {c : Client} {user : String} {q : Request} {reason? : Option String}
      (hjob : c.job = .call id user (.rejectRequest n reason?))
      (hkind : q.kind = .publication ∨ q.kind = .depublication ∨ q.kind = .deletion) :
      RequestStep id n after? (some c) (some q)
        (some { q with kind := .rejected, reason := reason? })
  | cancelled {c : Client} {user : String} {q : Request}
      (hjob : c.job = .call id user (.cancelRequest n)) :
      RequestStep id n after? (some c) (some q) none
  | accepted {c : Client} {user : String} {q : Request} {begun : Instant}
      (hjob : c.job = .call id user (.acceptRequest n))
      (hbegun : c.journal.head? = some (.now begun))
      (hkind : q.kind = .publication ∨ q.kind = .depublication ∨ q.kind = .deletion)
      (hnow : q.isDeferred begun = false ∨ q.kind = .deletion) :
      RequestStep id n after? (some c) (some q) none
  | ran {c : Client} {user : String} {q : Request} {now : Instant}
      (hjob : c.job = .call id user (.runScheduled now)) (hdue : q.isDue now = true) :
      RequestStep id n after? (some c) (some q) none
  | removed {c : Client} {user : String} {call : Call} {q : Request}
      (hjob : c.job = .call id user call) (hgone : after? = none) :
      RequestStep id n after? (some c) (some q) none

/-! ## Kinds -/

/-- A request that waits for a decision. -/
theorem RequestKind.waits_cases {kind : RequestKind} (hpending : kind.isPending = true)
    (hwaits : kind.isScheduled = false) :
    kind = .publication ∨ kind = .depublication ∨ kind = .deletion := by
  cases kind <;> simp [isPending, isScheduled] at hpending hwaits ⊢

theorem Request.Becomes.trans {q q' q'' : Request} (h : q.Becomes q') (h' : q'.Becomes q'') :
    q.Becomes q'' := by
  cases h with
  | same => exact h'
  | @scheduled kind hkind =>
      have hscheduled : kind = .scheduledPublication ∨ kind = .scheduledDepublication := by
        cases hq : q.kind <;> rw [hq] at hkind <;> cases hkind <;> simp
      cases h' with
      | same => exact .scheduled hkind
      | scheduled hkind' => rcases hscheduled with rfl | rfl <;> cases hkind'
      | rejected hkind' => rcases hscheduled with rfl | rfl <;> simp at hkind'
  | rejected hkind =>
      cases h' with
      | same => exact .rejected hkind
      | scheduled hkind' => cases hkind'
      | rejected hkind' => simp at hkind'

theorem RequestStep.becomes {id n : String} {after? : Option Stored} {c? : Option Client}
    {q q' : Request} (h : RequestStep id n after? c? (some q) (some q')) : q.Becomes q' := by
  cases h with
  | left => exact .same
  | scheduled hjob hbegun hdate hlater hkind => exact .scheduled hkind
  | rejected hjob hkind => exact .rejected hkind

/-! ## One commit -/

section

variable {desk : Desk} {s : System} {c : Client} {after : Store} {id n : String}

/-- What an operation makes of a request, told of the client whose call it is. -/
theorem Treats.requestStep {after? : Option Stored} {user : String} {call : Call}
    {op : Operation} {arguments : Arguments} {path : List Taken} {q? q?' : Option Request}
    (h : Treats arguments user op path n q? q?') (hjob : c.job = .call id user call)
    (hasks : call.Asks op arguments)
    (hbegun : ∀ request, call = .acceptRequest request →
      c.journal.head? = some (.now arguments.now))
    (hfresh : ∀ kind name, .fresh kind name ∈ path → name ∈ unused c.journal) :
    RequestStep id n after? (some c) q? q?' := by
  have hcall : ∀ {call'}, Call.asking? op arguments = some call' → call = call' :=
    hasks.eq_of_asking?
  cases h with
  | left => exact .left
  | filed hop hmem => exact .filed hjob hasks hop (hfresh _ _ hmem)
  | scheduled hop hid hdate hkind =>
      subst hop
      have hcall := hcall (congrArg (Option.map Call.acceptRequest) hid)
      obtain ⟨date, hscheduled, hlater⟩ := (Option.any_eq_true _ _).1 hdate
      exact .scheduled (hcall ▸ hjob) (hbegun n hcall) hscheduled (of_decide_eq_true hlater) hkind
  | rejected hop hid hpending hwaits =>
      subst hop
      have hcall := hcall (congrArg (Option.map fun n => Call.rejectRequest n arguments.reason) hid)
      exact .rejected (hcall ▸ hjob) (RequestKind.waits_cases hpending hwaits)
  | cancelled hop hid =>
      subst hop
      have hcall := hcall (congrArg (Option.map Call.cancelRequest) hid)
      exact .cancelled (hcall ▸ hjob)
  | @accepted q hop hid hpending hwaits hnow =>
      subst hop
      have hcall := hcall (congrArg (Option.map Call.acceptRequest) hid)
      have hkind := RequestKind.waits_cases hpending hwaits
      refine .accepted (hcall ▸ hjob) (hbegun n hcall) hkind (hnow.imp_right fun hnone => ?_)
      rcases hkind with hkind | hkind | hkind
      · rw [hkind] at hnone
        cases hnone
      · rw [hkind] at hnone
        cases hnone
      · exact hkind
  | ran hop hdue =>
      subst hop
      have hcall := hcall rfl
      exact .ran (hcall ▸ hjob) hdue

/-- A commit of a job that is not about the document leaves its requests. -/
theorem Affects.request?_eq {job : Job} {after? : Option Stored}
    (h : Affects desk s id job after?) (hother : ∀ user call, job ≠ .call id user call) :
    (after?.bind fun after => after.record.request? n) = s.store.request? id n := by
  cases h with
  | untouched => rfl
  | made hnew =>
      rw [Store.request?, hnew]
      rfl
  | removed hcarries hdeletes | changed hcarries hdeletes => exact absurd rfl (hother _ _)
  | @written own user call arguments stored stage v content now hasks htarget hne hget hv =>
      rw [Store.request?, hget]
      exact s.backend.request?_handsOut stored n

/-- What a call that commits makes of a request. -/
theorem CommitsCall.requestStep (h : CommitsCall desk s c after) (hfiled : s.store.Filed)
    (hids : ∀ id stored, s.store.get? id = some stored →
      (stored.record.requests.map Request.id).Nodup)
    (hnew : ∀ n ∈ unused c.journal, ∀ id, s.store.request? id n = none) (id n : String) :
    RequestStep id n (after.get? id) (some c) (s.store.request? id n) (after.request? id n) := by
  have haffects := h.affects hfiled id
  cases h with
  | @intro own user call stored op arguments path r t hjob hget hasks hbegun hallows heffect hid
      hloads hfresh hexpected hmade =>
      by_cases hown : id = own
      · subst hown
        have hbefore : s.store.request? id n =
            (s.backend.handsOut stored).record.request? n := by
          rw [Store.request?, hget]
          exact (s.backend.request?_handsOut stored n).symm
        have hown := hmade.get?_closing hid
        cases hdeletes : t.deletes with
        | true =>
            have hgone : after.get? id = none := by
              rw [hown, hdeletes]
              rfl
            have hafter : after.request? id n = none := by
              rw [Store.request?, hgone]
              rfl
            rw [hafter, hgone]
            cases s.store.request? id n with
            | none => exact .left
            | some q => exact .removed hjob rfl
        | false =>
            have hafter : after.request? id n = r.request? n := by
              rw [Store.request?, hown, hdeletes]
              rfl
            rw [hbefore, hafter]
            refine Treats.requestStep ?_ hjob hasks hbegun hfresh
            refine heffect.treats hallows ?_ fun hmem =>
              hbefore.symm.trans (hnew n (hfresh _ _ hmem) id)
            show ((s.backend.handsOut stored).record.requests.map Request.id).Nodup
            rw [s.backend.requests_handsOut]
            exact hids id stored hget
      · have hother : ∀ user' call', c.job ≠ .call id user' call' := by
          intro user' call' he
          rw [hjob] at he
          cases he
          exact hown rfl
        rw [← haffects.request?_eq hother]
        exact .left

end

namespace Office

variable {desk : Desk} {o : Office} {c : Client} {move : Move} {id n : String} {q : Request}

/-! ## Ids -/

/-- The ids of the requests in an office: each is spent and on one document only. -/
structure Tracked (desk : Desk) (o : Office) : Prop where
  fit : o.Fit desk
  current : o.Current desk
  spent : ∀ id n, (o.system.store.request? id n).isSome → o.Spent n
  apart : ∀ id id' n, (o.system.store.request? id n).isSome →
    (o.system.store.request? id' n).isSome → id = id'
  reason : ∀ id n q, o.system.store.request? id n = some q → q.reason.isSome →
    q.kind = .rejected

/-- A client that commits holds the names that it was given since its last commit. -/
theorem holds_of_committing? (hc : o.committing? move = some c) (hn : n ∈ unused c.journal) :
    ∃ i, o.Holds i n := by
  obtain ⟨i, changes, next, now, name, -, hi, -⟩ := @take_of_committing? {} o c move hc
  exact ⟨i, c, hi, hn⟩

/-- With the commit they are spent. -/
theorem Current.spent_of_committing? (h : o.Current desk) (hc : o.committing? move = some c)
    (hn : n ∈ unused c.journal) : (o.step desk move).Spent n := by
  obtain ⟨i, changes, next, now, name, -, hi, -, -, hstep⟩ := @take_of_committing? desk o c move hc
  have hholds : o.Holds i n := ⟨c, hi, hn⟩
  refine ⟨names_step desk o move (h.held i n hholds).1, fun j hj => ?_⟩
  rw [hstep] at hj
  rcases holds_take hi hj with ⟨hne, hj⟩ | ⟨-, hj⟩
  · exact hne (h.apart j i n hj hholds)
  · cases hj

namespace Tracked

/-- What one move makes of a request. -/
theorem requestStep (h : o.Tracked desk) (htable : desk.table = .standard) (move : Move)
    (id n : String) :
    RequestStep id n ((o.step desk move).system.store.get? id) (o.committing? move)
      (o.system.store.request? id n) ((o.step desk move).system.store.request? id n) := by
  cases hc : o.committing? move with
  | none =>
      rw [(sameData_step hc).store]
      exact .left
  | some c =>
      cases hjob : c.job with
      | create location stage content user =>
          have haffects := h.current.affects htable hc id
          have hsame := haffects.request?_eq (n := n) (fun user call he => by
            rw [hjob] at he
            cases he)
          rw [← hsame]
          exact .left
      | call own user call =>
          refine (h.current.commitsCall htable hc hjob).requestStep h.current.filed
            (fun id stored hget => (h.fit.stored id stored hget).distinct) (fun n hn id => ?_) id n
          obtain ⟨i, hholds⟩ := holds_of_committing? hc hn
          cases hq : o.system.store.request? id n with
          | none => rfl
          | some q => exact absurd hholds ((h.spent id n (by rw [hq]; rfl)).released i)

/-- A request that comes up is filed by the one client that commits, and its id is spent
then. -/
theorem filed_of_step (h : o.Tracked desk) (htable : desk.table = .standard)
    (hnone : o.system.store.request? id n = none)
    (hsome : ((o.step desk move).system.store.request? id n).isSome) :
    (∃ c user call, o.committing? move = some c ∧ c.job = .call id user call ∧
      n ∈ unused c.journal) := by
  have hstep := h.requestStep htable move id n
  rw [hnone] at hstep
  generalize (o.step desk move).system.store.request? id n = q? at hstep hsome
  generalize hc : o.committing? move = c? at hstep
  cases hstep with
  | left => cases hsome
  | @filed c user call op arguments kind t hjob hasks hop hfresh =>
      exact ⟨c, user, call, rfl, hjob, hfresh⟩

/-- A spent id does not come up. -/
theorem request?_step_of_spent (h : o.Tracked desk) (htable : desk.table = .standard)
    (hspent : o.Spent n) (hnone : o.system.store.request? id n = none) (move : Move) :
    (o.step desk move).system.store.request? id n = none := by
  cases hq : (o.step desk move).system.store.request? id n with
  | none => rfl
  | some q =>
      obtain ⟨c, user, call, hc, -, hn⟩ := h.filed_of_step htable hnone (by rw [hq]; rfl)
      obtain ⟨i, hholds⟩ := holds_of_committing? hc hn
      exact absurd hholds (hspent.released i)

theorem step (h : o.Tracked desk) (htable : desk.table = .standard) (move : Move) :
    (o.step desk move).Tracked desk := by
  refine ⟨h.fit.step htable move, h.current.step htable move, fun id n hsome => ?_,
    fun id id' n hsome hsome' => ?_, fun id n q hq hreason => ?_⟩
  · cases hq : o.system.store.request? id n with
    | some q => exact (h.spent id n (by rw [hq]; rfl)).step desk move
    | none =>
        obtain ⟨c, user, call, hc, -, hn⟩ := h.filed_of_step htable hq hsome
        exact h.current.spent_of_committing? hc hn
  · have hkept : ∀ {id}, ((o.step desk move).system.store.request? id n).isSome → o.Spent n →
        (o.system.store.request? id n).isSome := by
      intro id hsome hspent
      by_contra hnone
      rw [h.request?_step_of_spent htable hspent (Option.not_isSome_iff_eq_none.1 hnone)] at hsome
      cases hsome
    by_cases hspent : o.Spent n
    · exact h.apart id id' n (hkept hsome hspent) (hkept hsome' hspent)
    · -- The id is a new one, and one client commits.
      have hnone : ∀ id, o.system.store.request? id n = none := fun id =>
        Option.not_isSome_iff_eq_none.1 fun hsome => hspent (h.spent id n hsome)
      obtain ⟨c, user, call, hc, hjob, -⟩ := h.filed_of_step htable (hnone id) hsome
      obtain ⟨c', user', call', hc', hjob', -⟩ := h.filed_of_step htable (hnone id') hsome'
      rw [hc] at hc'
      cases hc'
      rw [hjob] at hjob'
      cases hjob'
      rfl
  · have hstep := h.requestStep htable move id n
    have hbefore := h.reason id n
    rw [hq] at hstep
    generalize o.system.store.request? id n = q? at hstep hbefore
    generalize o.committing? move = c? at hstep
    cases hstep with
    | left => exact hbefore q rfl hreason
    | filed => cases hreason
    | @scheduled c user q kind begun date hjob hbegun hdate hlater hkind =>
        rw [hbefore q rfl hreason] at hkind
        cases hkind
    | rejected => rfl

/-- A spent id that is not on a document does not come up on it any more. -/
theorem request?_run_of_spent (h : o.Tracked desk) (htable : desk.table = .standard)
    (hspent : o.Spent n) (hnone : o.system.store.request? id n = none) (moves : List Move) :
    (o.run desk moves).system.store.request? id n = none := by
  induction moves generalizing o with
  | nil => exact hnone
  | cons move moves ih =>
      exact ih (h.step htable move) (hspent.step desk move)
        (h.request?_step_of_spent htable hspent hnone move)

/-- What becomes of a request in a run. -/
theorem becomes_run (h : o.Tracked desk) (htable : desk.table = .standard)
    (hspent : o.Spent n) (hq : ∀ q', o.system.store.request? id n = some q' → q.Becomes q')
    (moves : List Move) :
    ∀ q', (o.run desk moves).system.store.request? id n = some q' → q.Becomes q' := by
  induction moves generalizing o with
  | nil => exact hq
  | cons move moves ih =>
      refine ih (h.step htable move) (hspent.step desk move) fun q'' hq'' => ?_
      have hstep := h.requestStep htable move id n
      rw [hq''] at hstep
      cases hbefore : o.system.store.request? id n with
      | none =>
          rw [h.request?_step_of_spent htable hspent hbefore move] at hq''
          cases hq''
      | some q' =>
          rw [hbefore] at hstep
          exact (hq q' hbefore).trans hstep.becomes

end Tracked

theorem tracked_run (htable : desk.table = .standard) {s : System} (hs : s.store = .empty)
    (moves : List Move) : ((opening s).run desk moves).Tracked desk := by
  have hnone : ∀ id n, (opening s).system.store.request? id n = none := by
    intro id n
    show s.store.request? id n = none
    rw [hs]
    rfl
  refine run_induction (fun o move h => h.step htable move) ⟨fit_run htable hs [],
    current_run htable (Store.filed_of_empty hs) [], fun id n hsome => ?_,
    fun id id' n hsome => ?_, fun id n q hq => ?_⟩ moves
  · rw [hnone] at hsome
    cases hsome
  · rw [hnone] at hsome
    cases hsome
  · rw [hnone] at hq
    cases hq

end Office

/-! ## All runs -/

/-- What becomes of requests in the runs of an office. -/
structure RequestsLive (desk : Desk) (s : System) : Prop where
  /-- One move, in any run. -/
  step : ∀ (moves : List Move) (move : Move) (id n : String),
    let o := (Office.opening s).run desk moves
    RequestStep id n ((o.step desk move).system.store.get? id) (o.committing? move)
      (o.system.store.request? id n) ((o.step desk move).system.store.request? id n)
  /-- An id is that of one request on one document. -/
  once : ∀ (moves : List Move) (id id' : String) (stored stored' : Stored),
    let o := (Office.opening s).run desk moves
    o.system.store.get? id = some stored → o.system.store.get? id' = some stored' →
    (stored.record.requests.map Request.id).Nodup ∧
      ∀ q ∈ stored.record.requests, ∀ q' ∈ stored'.record.requests, q.id = q'.id → id = id'
  reason : ∀ (moves : List Move) (id n : String) (q : Request),
    ((Office.opening s).run desk moves).system.store.request? id n = some q →
    q.reason.isSome → q.kind = .rejected
  becomes : ∀ (before during : List Move) (id n : String) (q q' : Request),
    let o := (Office.opening s).run desk before
    o.system.store.request? id n = some q →
    (o.run desk during).system.store.request? id n = some q' → q.Becomes q'
  /-- A request that is gone is gone from all documents. -/
  gone : ∀ (before during later : List Move) (id id' n : String) (q : Request),
    let o := (Office.opening s).run desk before
    o.system.store.request? id n = some q →
    (o.run desk during).system.store.request? id n = none →
    (o.run desk (during ++ later)).system.store.request? id' n = none

/-- In every run of an office that begins with an empty store, whatever the clock, the
backend and the settings: a request is filed, scheduled, rejected and removed by the calls
for that only, nothing else about it changes, and its id is never used again. -/
theorem requests_live (desk : Desk) (htable : desk.table = .standard) (s : System)
    (hs : s.store = .empty) : RequestsLive desk s := by
  have hrun := fun moves => Office.tracked_run htable hs moves
  have hspent : ∀ {moves id n q},
      ((Office.opening s).run desk moves).system.store.request? id n = some q →
      ((Office.opening s).run desk moves).Spent n := fun hq =>
    (hrun _).spent _ _ (by rw [hq]; rfl)
  refine ⟨fun moves move id n => (hrun moves).requestStep htable move id n, ?_,
    fun moves => (hrun moves).reason, ?_, ?_⟩
  · intro moves id id' stored stored' o hget hget'
    have hfound : ∀ {id stored q}, o.system.store.get? id = some stored →
        q ∈ stored.record.requests → (o.system.store.request? id q.id).isSome := by
      intro id stored q hget hq
      rw [Store.request?, hget]
      show (stored.record.request? q.id).isSome
      rw [Record.request?_id ((hrun moves).fit.stored id stored hget).distinct hq]
      rfl
    refine ⟨((hrun moves).fit.stored id stored hget).distinct, fun q hq q' hq' he => ?_⟩
    exact (hrun moves).apart id id' q.id (hfound hget hq) (he ▸ hfound hget' hq')
  · intro before during id n q q' o hq
    refine (hrun before).becomes_run htable (hspent hq) (fun q' hq' => ?_) during q'
    rw [hq] at hq'
    cases hq'
    exact .same
  · intro before during later id id' n q o hq hnone
    have hnow : (o.run desk during).system.store.request? id' n = none := by
      by_cases hid : id' = id
      · rw [hid, hnone]
      · refine (hrun before).request?_run_of_spent htable (hspent hq) ?_ during
        refine Option.not_isSome_iff_eq_none.1 fun hsome => hid ?_
        exact (hrun before).apart id' id n hsome (by rw [hq]; rfl)
    have hduring := hrun (before ++ during)
    rw [Office.run_append] at hduring
    rw [Office.run_append]
    exact hduring.request?_run_of_spent htable ((hspent hq).run desk during) hnow later

/-- Ann files a request for a later date, and Ed accepts it. -/
theorem requests_live_scheduled :
    let date : Instant := ⟨1, 0, by decide, by decide, by decide⟩
    let step (client : Nat) : Move := .advance client .epoch ""
    let moves : List Move :=
      [.enter (.create none .unpublished .null "ann"), .advance 0 .epoch "a",
        .advance 0 .epoch "v", step 0, step 0,
        .enter (.call "a" "ann" (.requestPublication (some date))), step 1, step 1,
        .advance 1 .epoch "q"] ++
      List.replicate 4 (step 1) ++
      (.enter (.call "a" "ed" (.acceptRequest "q")) :: List.replicate 5 (step 2))
    let o := (Office.opening {}).run {} moves
    o.system.store.request? "a" "q" =
        some ⟨"q", .scheduledPublication, some date, none, "ann", .epoch⟩ ∧
      RequestsLive {} {} := by
  intro date step moves o
  exact ⟨by decide +kernel, requests_live {} rfl {} rfl⟩

end Editorial
