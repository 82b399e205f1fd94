import Editorial.Proofs.Desk.Admitted
import Editorial.Proofs.Desk.Settling
import Editorial.Proofs.Hints.Agreement
import Editorial.Proofs.System.Answers

/-!
# Calls that nobody disturbs

A call is not disturbed if the system answers each of its steps as it was when the
call began, up to the step with which the call itself changes something. Then its
first attempt decides: either it stops before the commit, for a reason that lies in
the store and in the call, or the commit is admitted and goes through. So there is
no second attempt, and no failure for having been too late.

## Main results

* `Mutates.replies` — what an undisturbed call comes to.
* `kind_ne_of_leads_process` — an undisturbed job never fails for contention.
* `refused_of_leads_process` — nor does it file a document where there is another.
-/

namespace Editorial

/-- A store that commits a set of changes as a whole, with sound records in their
places. -/
structure System.InOrder (s : System) : Prop where
  whole : s.backend = .whole
  filed : s.store.Filed
  spread : s.store.Spread
  sound : ∀ id stored, s.store.get? id = some stored → stored.record.IsSound
  distinct : ∀ id stored, s.store.get? id = some stored →
    (stored.record.requests.map Request.id).Nodup

namespace Desk

variable {desk : Desk} {s : System} {id user : String} {op : Operation} {arguments : Arguments}

/-! ## Why operations stop -/

/-- Why an undisturbed operation on the record `id` stops before its commit: how it
fails, or `none` if it breaks off. -/
inductive Stops (desk : Desk) (s : System) (id user : String) (op : Operation)
    (arguments : Arguments) : Option Failure → Prop
  | missing (hmissing : s.store.get? id = none) :
      Stops desk s id user op arguments (some (.handleMissing id))
  | denied {stored : Stored} (hget : s.store.get? id = some stored)
      (hdenied : (Hints.ofHandle ⟨stored.record, stored.revision, user⟩).allows op
        arguments.request = false) :
      Stops desk s id user op arguments (some (.denied op))
  | obstacle {stored : Stored} {failure : Failure} (hget : s.store.get? id = some stored)
      (hobstacle : Obstacle ⟨arguments, desk.settings.folderCategory⟩
        ⟨stored.record, stored.revision, user⟩ (Taken.AnsweredBy s) op failure) :
      Stops desk s id user op arguments (some failure)
  | overflow (hop : op = .version) : Stops desk s id user op arguments none

/-- No reason to stop is taken for having been too late. -/
theorem Stops.kind_ne {failure : Failure}
    (h : desk.Stops s id user op arguments (some failure)) :
    failure.kind ≠ .concurrentModification := by
  cases h with
  | missing | denied => exact nofun
  | obstacle hget hobstacle =>
      intro hkind
      have hmem := hobstacle.kind_mem
      rw [hkind] at hmem
      exact absurd hmem (by decide)

theorem exists_changes (id : String) {w : Work}
    (hcheck : w.transaction.deletes = false → w.handle.record.check = .ok ()) :
    ∃ changes, Desk.changes id w = .ok changes := by
  cases hd : w.transaction.deletes with
  | false => exact ⟨_, changes_eq hd (hcheck hd)⟩
  | true =>
      unfold Desk.changes
      rw [hd, if_pos rfl]
      exact ⟨_, rfl⟩

section

variable (hs : s.InOrder) (htable : desk.table = .standard)
include hs htable

/-- An undisturbed operation stops, or what it leaves is an effect. -/
theorem leads_read_undisturbed {path : List Taken} {result : Option (Except Failure Work)}
    (hl : (desk.read id user op arguments).run.Leads path result)
    (hanswered : ∀ step ∈ path, step.AnsweredBy s) :
    (∃ failure?, desk.Stops s id user op arguments failure? ∧ result = failure?.map .error) ∨
      ∃ w, result = some (.ok w) ∧ w.handle.record.IsSound := by
  have hl' := hl
  rw [run_read, htable, Process.leads_ask] at hl'
  obtain ⟨answer, path', rfl, hrest⟩ := hl'
  have hload : answer = s.backend.load s.store id := hanswered _ (List.mem_cons_self ..)
  rw [hs.whole] at hload
  subst hload
  cases hget : s.store.get? id with
  | none =>
      rw [Backend.load_of_get?_none hget] at hrest
      exact Or.inl ⟨_, .missing hget, ((Process.leads_done _ _ _).1 hrest).2⟩
  | some stored =>
      rw [Backend.load_whole_iff.2 hget] at hrest
      obtain ⟨fired?, hfired, rfl⟩ := (Process.leads_map _ _ _ _).1 hrest
      cases ha : (Hints.ofHandle ⟨stored.record, stored.revision, user⟩).allows op
          arguments.request with
      | false =>
          rw [Table.on_fire_denied ha] at hfired
          obtain ⟨rfl, rfl⟩ := (Process.leads_done _ _ _).1 hfired
          exact Or.inl ⟨_, .denied hget ha, rfl⟩
      | true =>
          have hsound := hs.sound id stored hget
          rcases (Table.outcome_of_leads_fire ha hfired).of_answered
            (System.isReadable_of_whole hs.whole) hsound (hs.distinct id stored hget) ha
            (fun step hm => hanswered step (List.mem_cons_of_mem _ hm)) with
            ⟨r, t, rfl, heffect⟩ | ⟨failure, w, rfl, hobstacle⟩ | ⟨rfl, hop, -⟩
          · exact Or.inr ⟨_, rfl, heffect.isSound ha hsound⟩
          · exact Or.inl ⟨_, .obstacle hget hobstacle, rfl⟩
          · exact Or.inl ⟨none, .overflow hop, rfl⟩

/-- An undisturbed attempt stops, or it prepares a commit. -/
theorem leads_prepare_undisturbed {path : List Taken}
    {result : Option (Except Failure (List Change × Transaction))}
    (hl : (desk.prepare id user op arguments).run.Leads path result)
    (hanswered : ∀ step ∈ path, step.AnsweredBy s) :
    (∃ failure?, desk.Stops s id user op arguments failure? ∧ result = failure?.map .error) ∨
      ∃ prepared, result = some (.ok prepared) := by
  rw [run_prepare, Process.leads_map] at hl
  obtain ⟨result', hread, rfl⟩ := hl
  rcases leads_read_undisturbed hs htable hread hanswered with
    ⟨failure?, hstops, rfl⟩ | ⟨w, rfl, hsound⟩
  · refine Or.inl ⟨failure?, hstops, ?_⟩
    cases failure? <;> rfl
  · obtain ⟨changes, hchanges⟩ := exists_changes id fun _ =>
      (Record.check_eq_ok_iff w.handle.record).2 hsound
    refine Or.inr ⟨(changes, w.transaction), ?_⟩
    simp only [Option.map_some, Except.bind, hchanges, Except.map]

end

/-! ## The first attempt decides -/

/-- What an operation comes to if it stops, or else if its first attempt is
committed. -/
inductive Runs (desk : Desk) (s : System) (id user : String) (op : Operation)
    (arguments : Arguments) {α : Type} (answer : Transaction → α) :
    Option (Except Failure α) → Prop
  | stops {failure? : Option Failure} {result : Option (Except Failure α)}
      (hstops : desk.Stops s id user op arguments failure?)
      (hresult : result = failure?.map .error) :
      Runs desk s id user op arguments answer result
  | commits {path : List Taken} {changes : List Change} {t : Transaction}
      {result : Option (Except Failure α)}
      (hp : desk.Prepares id user op arguments path changes t)
      (hanswered : ∀ step ∈ path, step.AnsweredBy s) (hresult : result = some (.ok (answer t))) :
      Runs desk s id user op arguments answer result

/-- What the first attempt at an operation commits is admitted. -/
def Admits (desk : Desk) (s : System) (id user : String) (op : Operation)
    (arguments : Arguments) (path : List Taken) : Prop :=
  ∀ first changes t, desk.Prepares id user op arguments first changes t →
    (∀ step ∈ first, step.AnsweredBy s) → (∀ step ∈ first, step ∈ path) →
    s.store.Admitted changes

theorem Admits.of_append {first second : List Taken}
    (h : desk.Admits s id user op arguments (first ++ second)) :
    desk.Admits s id user op arguments first := fun _ _ _ hp hanswered hm =>
  h _ _ _ hp hanswered fun step hstep => List.mem_append_left _ (hm step hstep)

theorem Admits.of_cons {step : Taken} {path : List Taken}
    (h : desk.Admits s id user op arguments (step :: path)) :
    desk.Admits s id user op arguments path := fun _ _ _ hp hanswered hm =>
  h _ _ _ hp hanswered fun step hstep => List.mem_cons_of_mem _ (hm step hstep)

section

variable (hs : s.InOrder) (htable : desk.table = .standard)
include hs htable

theorem runs_of_leads_attempt {path : List Taken}
    {result : Option (Except Failure (Attempt Transaction))}
    (hl : (desk.attempt id user op arguments).run.Leads path result) (ha : s.Answers path)
    (hadmits : desk.Admits s id user op arguments path) :
    desk.Runs s id user op arguments .committed result := by
  cases attemptEnds_of_leads htable hl with
  | broken hprepare =>
      rcases leads_prepare_undisturbed hs htable hprepare
        (ha.answeredBy (isIdle_of_leads_prepare hprepare)) with
        ⟨_ | failure, hstops, hr⟩ | ⟨prepared, hr⟩
      · exact .stops hstops rfl
      · cases hr
      · cases hr
  | stopped hprepare =>
      rcases leads_prepare_undisturbed hs htable hprepare
        (ha.answeredBy (isIdle_of_leads_prepare hprepare)) with
        ⟨_ | failure, hstops, hr⟩ | ⟨prepared, hr⟩
      · cases hr
      · cases hr
        exact .stops hstops rfl
      · cases hr
  | failed hp =>
      obtain ⟨-, hcommit⟩ := System.answers_append.1 ha
      cases (hcommit (hp.isIdle htable)).1
  | @lost first changes t other hp =>
      obtain ⟨hfirst, hcommit⟩ := System.answers_append.1 ha
      have hconflict : Except.ok (.conflict other) = .ok (s.backend.commit s.store changes).1 :=
        (hcommit (hp.isIdle htable)).1
      have hadmitted := hadmits _ _ _ hp (hfirst.answeredBy (hp.isIdle htable))
        fun step hm => List.mem_append_left _ hm
      rw [hs.whole] at hconflict
      change Except.ok (.conflict other) = Except.ok (s.store.commitWhole changes).1 at hconflict
      rw [Store.commitWhole_of_admitted hadmitted] at hconflict
      cases hconflict
  | @settled first changes t now hp =>
      have hanswered := (System.answers_append.1 ha).1.answeredBy (hp.isIdle htable)
      exact .commits hp hanswered rfl

/-- What goes on after a conflict only comes to what its attempt comes to. -/
theorem runs_of_leads_bind {goOn : Process (Except Failure Transaction)} {path : List Taken}
    {result : Option (Except Failure Transaction)}
    (hl : ((desk.attempt id user op arguments).run.bind fun
      | .ok (.committed t) => .done (.ok t)
      | .ok .conflict => goOn
      | .error failure => .done (.error failure)).Leads path result)
    (ha : s.Answers path) (hadmits : desk.Admits s id user op arguments path) :
    desk.Runs s id user op arguments (fun t => t) result := by
  rw [Process.leads_bind] at hl
  rcases hl with ⟨first, second, r, rfl, hattempt, hend⟩ | ⟨rfl, hattempt⟩
  · cases runs_of_leads_attempt hs htable hattempt (System.answers_append.1 ha).1
      (hadmits.of_append) with
    | @stops failure? _ hstops hresult =>
        cases failure? with
        | none => cases hresult
        | some failure =>
            cases hresult
            exact .stops hstops ((Process.leads_done _ _ _).1 hend).2
    | commits hp hanswered hresult =>
        cases hresult
        exact .commits hp hanswered ((Process.leads_done _ _ _).1 hend).2
  · cases runs_of_leads_attempt hs htable hattempt ha hadmits with
    | @stops failure? _ hstops hresult =>
        cases failure? with
        | none => exact .stops hstops rfl
        | some failure => cases hresult
    | commits hp hanswered hresult => cases hresult

/-- An undisturbed operation does what its first attempt does. -/
theorem runs_of_leads_execute (hop : op.isReadOnly = false) {path : List Taken}
    {result : Option (Except Failure Transaction)}
    (hl : (desk.execute id user op arguments).run.Leads path result) (ha : s.Answers path)
    (hadmits : desk.Admits s id user op arguments path) :
    desk.Runs s id user op arguments (fun t => t) result := by
  unfold execute at hl
  rw [hop, if_neg Bool.false_ne_true] at hl
  change Process.Leads (ExceptT.run (Retry.runFrom (Process.pause _)
    (fun _ => desk.attempt id user op arguments) _ (desk.settings.retry.attempts - 1) 1)) _ _ at hl
  cases hleft : desk.settings.retry.attempts - 1 with
  | zero =>
      rw [hleft, run_runFrom_zero] at hl
      exact runs_of_leads_bind hs htable hl ha hadmits
  | succ left =>
      rw [hleft, run_runFrom_succ] at hl
      exact runs_of_leads_bind hs htable hl ha hadmits

end

/-! ## Calls -/

/-- What a call comes to if nobody disturbs it. -/
inductive Replies (desk : Desk) (s : System) (id user : String) (blank : Prop)
    (asks : Operation → Arguments → Prop) (result : Option (Except Failure Reply)) : Prop
  | refused {fault : ArgumentFault} (hblank : blank)
      (hresult : result = some (.error (.argument fault)))
  | stops {op : Operation} {arguments : Arguments} {failure? : Option Failure}
      (hasks : asks op arguments) (hstops : desk.Stops s id user op arguments failure?)
      (hresult : result = failure?.map .error)
  | commits {op : Operation} {arguments : Arguments} {path : List Taken} {changes : List Change}
      {t : Transaction} {reply : Reply} (hasks : asks op arguments)
      (hp : desk.Prepares id user op arguments path changes t)
      (hanswered : ∀ step ∈ path, step.AnsweredBy s) (hresult : result = some (.ok reply))

section

variable (hs : s.InOrder) (htable : desk.table = .standard)
include hs htable

/-- What an undisturbed call comes to. -/
theorem Mutates.replies {blank : Prop} {asks : Operation → Arguments → Prop} {f : Flow Reply}
    (h : Mutates desk id user blank asks f) {path : List Taken}
    {result : Option (Except Failure Reply)} (hl : f.run.Leads path result) (ha : s.Answers path)
    (hadmits : ∀ op arguments, asks op arguments → desk.Admits s id user op arguments path) :
    desk.Replies s id user blank asks result := by
  induction h generalizing path with
  | @refused f fault hblank hrun =>
      rw [hrun] at hl
      exact .refused hblank ((Process.leads_done _ _ _).1 hl).2
  | @now next hnext ih =>
      rw [Flow.run_bind] at hl
      obtain ⟨begun, path', rfl, hl'⟩ := (Process.leads_ask _ _ _ _).1 hl
      exact ih begun hl' (ha.2 trivial) fun op arguments hasks =>
        (hadmits op arguments hasks).of_cons
  | @execute op arguments finish hop hasks hends =>
      rw [Flow.run_bind, Process.leads_bind] at hl
      rcases hl with ⟨first, second, t?, rfl, hexecute, hend⟩ | ⟨rfl, hexecute⟩
      · cases runs_of_leads_execute hs htable hop hexecute (System.answers_append.1 ha).1
          (hadmits op arguments hasks).of_append with
        | @stops failure? _ hstops hresult =>
            cases failure? with
            | none => cases hresult
            | some failure =>
                cases hresult
                exact .stops hasks hstops ((Process.leads_done _ _ _).1 hend).2
        | @commits path' changes t _ hp hanswered hresult =>
            cases hresult
            cases hp with
            | loaded hallows heffect hchanges =>
                obtain ⟨reply?, hfinish, hconcludes⟩ := hends t
                obtain ⟨reply, rfl⟩ := hconcludes.exists_reply heffect
                change Process.Leads (finish t).run second result at hend
                rw [hfinish] at hend
                exact .commits hasks (.loaded hallows heffect hchanges) hanswered
                  ((Process.leads_done _ _ _).1 hend).2
      · cases runs_of_leads_execute hs htable hop hexecute ha (hadmits op arguments hasks) with
        | @stops failure? _ hstops hresult =>
            cases failure? with
            | none => exact .stops hasks hstops rfl
            | some failure => cases hresult
        | commits hp hanswered hresult => cases hresult

end

end Desk

end Editorial
