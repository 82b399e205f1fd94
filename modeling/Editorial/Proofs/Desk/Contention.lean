import Editorial.Proofs.Desk.Undisturbed

/-!
# No contention without other writers

A call that nobody disturbs never gets to start over. It is not refused for having
been too late either, with one exception: a document that is to be copied to where it
is itself. What is prepared then is refused by every store, as often as it is tried.

A call that is to file a document where there is another one is told so.

## Main results

* `kind_ne_of_leads_process` — an undisturbed job never fails for contention.
* `refused_of_leads_process` — an undisturbed call files no document where there is
  another.
-/

namespace Editorial

/-- The operation with which a call about the record `r` files a document in a place,
and the place. -/
def Call.filing? (r : Record) : Call → Option (Operation × Location)
  | .copy container name => some (.copy, ⟨container, name⟩)
  | .move container name => some (.move, ⟨container, name⟩)
  | .rename name => do return (.rename, ⟨(← r.location).container, name⟩)
  | _ => none

theorem Call.Asks.filing {call : Call} {op : Operation} {arguments : Arguments}
    (h : call.Asks op arguments) {r : Record} {op' : Operation} {place : Location}
    (hf : call.filing? r = some (op', place)) :
    op = op' ∧ arguments.place? op r = some place ∧ arguments.request = none := by
  obtain ⟨-, begun, now, hturn⟩ := h
  cases call with
  | copy container name | move container name =>
      cases hturn
      cases hf
      exact ⟨rfl, rfl, rfl⟩
  | rename name =>
      cases hturn
      cases hl : r.location with
      | none =>
          simp only [filing?, hl] at hf
          cases hf
      | some l =>
          simp only [filing?, hl] at hf
          cases hf
          exact ⟨rfl, by simp [Arguments.place?, hl], rfl⟩
  | _ => cases hf

theorem Call.isUsable_of_filing? {call : Call} {r : Record} {op : Operation} {place : Location}
    (hf : call.filing? r = some (op, place)) (hnamed : place.IsNamed) : call.isUsable = true := by
  cases call with
  | copy container name | move container name =>
      cases hf
      exact Bool.and_eq_true_iff.2 ⟨by simpa using hnamed.1, by simpa using hnamed.2⟩
  | rename name =>
      cases hl : r.location with
      | none =>
          simp only [filing?, hl] at hf
          cases hf
      | some l =>
          simp only [filing?, hl] at hf
          cases hf
          simpa [isUsable] using hnamed.2
  | _ => cases hf

/-- The job is to copy a document to where the store has the document. -/
def Job.CopiesInPlace (s : Store) : Job → Prop
  | .call id _ (.copy container name) =>
      ∃ stored, s.get? id = some stored ∧ stored.record.location = some ⟨container, name⟩
  | _ => False

namespace Desk

variable {desk : Desk} {s : System} {id user : String} {op : Operation} {arguments : Arguments}

/-! ## Calls that only read -/

/-- As long as the steps of a flow are answered by `s`, it does not fail for having
been too late. -/
def NeverLate {α : Type} (s : System) (f : Flow α) : Prop :=
  ∀ path failure, f.run.Leads path (some (.error failure)) → (∀ step ∈ path, step.AnsweredBy s) →
    failure.kind ≠ .concurrentModification

theorem neverLate_pure {α : Type} (a : α) : NeverLate s (pure a : Flow α) := by
  intro path failure hl
  cases ((Process.leads_done _ _ _).1 hl).2

theorem neverLate_now : NeverLate s (liftM Process.now : Flow Instant) := by
  intro path failure hl
  obtain ⟨begun, path', -, hend⟩ := (Process.leads_ask _ _ _ _).1 hl
  cases ((Process.leads_done _ _ _).1 hend).2

theorem NeverLate.bind {α β : Type} {f : Flow α} {g : α → Flow β} (hf : NeverLate s f)
    (hg : ∀ a, NeverLate s (g a)) : NeverLate s (f >>= g) := by
  intro path failure hl hanswered
  rw [Flow.run_bind, Process.leads_bind_some] at hl
  obtain ⟨first, second, r, rfl, hfirst, hsecond⟩ := hl
  obtain ⟨hanswered₁, hanswered₂⟩ := List.forall_mem_append.1 hanswered
  rcases r with failure' | a
  · cases ((Process.leads_done _ _ _).1 hsecond).2
    exact hf first failure hfirst hanswered₁
  · exact hg a second failure hsecond hanswered₂

theorem neverLate_read (hs : s.InOrder) (htable : desk.table = .standard) :
    NeverLate s (desk.read id user op arguments) := by
  intro path failure hl hanswered
  rcases leads_read_undisturbed hs htable hl hanswered with
    ⟨_ | failure', hstops, hr⟩ | ⟨w, hr, -⟩
  · cases hr
  · cases hr
    exact hstops.kind_ne
  · cases hr

theorem neverLate_load : NeverLate s (load id user) := by
  intro path failure hl hanswered
  obtain ⟨answer, path', rfl, hend⟩ := (Process.leads_ask _ _ _ _).1 hl
  have hload : answer = s.backend.load s.store id := hanswered _ (List.mem_cons_self ..)
  rcases answer with unread | _ | stored
  · cases Backend.eq_nestedTooDeep_of_load hload.symm
    cases ((Process.leads_done _ _ _).1 hend).2
    exact nofun
  · cases ((Process.leads_done _ _ _).1 hend).2
    exact nofun
  · cases ((Process.leads_done _ _ _).1 hend).2

theorem neverLate_answer (hs : s.InOrder) (htable : desk.table = .standard) {call : Call}
    (hcall : call.isReadOnly = true) : NeverLate s (desk.answer id user call) := by
  unfold answer
  cases call with
  | retrieveVersion timestamp =>
      refine neverLate_now.bind fun begun => NeverLate.bind ?_ fun t => ?_
      · exact (neverLate_read hs htable).bind fun w => neverLate_pure _
      · cases t.result with
        | none =>
            intro path failure hl
            cases ((Process.leads_done _ _ _).1 hl).2
            exact nofun
        | some d => exact neverLate_pure _
  | listVersions =>
      exact neverLate_now.bind fun begun =>
        (neverLate_read hs htable).bind fun w => neverLate_pure _
  | hints => exact neverLate_load.bind fun h => neverLate_pure _
  | _ => cases hcall

/-! ## Jobs -/

/-- What an attempt of a call commits is admitted, unless it copies a document to
where it is. New names must not be in use. -/
theorem admits_of_asks (hs : s.InOrder) {call : Call} (hasks : call.Asks op arguments)
    (hcopy : ¬ (Job.call id user call).CopiesInPlace s.store) {path : List Taken}
    (hnew : ∀ name, .fresh .handle name ∈ path → s.store.get? name = none) :
    desk.Admits s id user op arguments path := by
  intro first changes t hp hanswered hsub
  refine hp.admitted hs.whole hs.filed hs.spread hanswered (fun name hm => hnew name (hsub _ hm)) ?_
  rintro rfl stored hget place hplace hlocation
  obtain ⟨-, begun, now, hturn⟩ := hasks
  cases call with
  | copy container name =>
      cases hturn
      cases hplace
      exact hcopy ⟨stored, hget, hlocation⟩
  | publish date? => obtain ⟨hop | hop, -⟩ := Call.of_turn?_publish hturn <;> cases hop
  | depublish date? => obtain ⟨hop | hop, -⟩ := Call.of_turn?_depublish hturn <;> cases hop
  | _ => cases hturn

/-- What files a document in a place is not prepared while another one is there. -/
theorem Prepares.not_occupied (hs : s.InOrder) {path : List Taken} {changes : List Change}
    {t : Transaction} (hp : desk.Prepares id user op arguments path changes t)
    (hanswered : ∀ step ∈ path, step.AnsweredBy s) {stored : Stored}
    (hget : s.store.get? id = some stored) {place : Location}
    (hplace : arguments.place? op stored.record = some place) {other : String}
    (hfind : s.store.find? place = some other) : other = id := by
  cases hp with
  | @loaded loaded path r _ _ hallows heffect hchanges =>
      have hload : Except.ok (some loaded) = s.backend.load s.store id :=
        hanswered _ (List.mem_cons_self ..)
      rw [hs.whole] at hload
      have hloaded := Backend.load_whole_iff.1 hload.symm
      rw [hget] at hloaded
      cases hloaded
      obtain ⟨found, hm, hfree⟩ := heffect.exists_find hplace
      have hfound : Except.ok found = .ok (s.store.find? place) :=
        hanswered _ (List.mem_cons_of_mem _ hm)
      rw [hfind] at hfound
      cases Except.ok.inj hfound
      rcases hfree with hfree | hfree
      · cases hfree
      · exact (Option.some.inj hfree).trans (hs.filed id _ hget)

/-- Making a document never fails for having been too late. -/
theorem kind_ne_of_leads_create {location : Option Location} {stage : Stage} {content : Payload}
    {user : String} {path : List Taken} {failure : Failure}
    (hl : (create location stage content user).run.Leads path (some (.error failure)))
    (ha : s.Answers path) : failure.kind ≠ .concurrentModification := by
  rcases run_create_cases location stage content user with ⟨fault, hrun⟩ | ⟨-, refused, hrun⟩
  · rw [hrun] at hl
    cases ((Process.leads_done _ _ _).1 hl).2
    exact nofun
  · rw [hrun, run_createAt] at hl
    obtain ⟨id, path₁, rfl, hvariant⟩ := (Process.leads_ask _ _ _ _).1 hl
    obtain ⟨v, path₂, rfl, hnow⟩ := (Process.leads_ask _ _ _ _).1 hvariant
    obtain ⟨now, path₃, rfl, hcommit⟩ := (Process.leads_ask _ _ _ _).1 hnow
    obtain ⟨answer, path₄, rfl, hend⟩ := (Process.leads_ask _ _ _ _).1 hcommit
    have hanswered := (((ha.2 trivial).2 trivial).2 trivial).1
    rcases answer with failure' | _ | other
    · cases hanswered
    · cases ((Process.leads_done _ _ _).1 hend).2
    · cases ((Process.leads_done _ _ _).1 hend).2
      exact nofun

section

variable (hs : s.InOrder) (htable : desk.table = .standard)
include hs htable

/-- A call that nobody disturbs never fails for having been too late. -/
theorem kind_ne_of_leads_answer {call : Call} {path : List Taken} {failure : Failure}
    (hl : (desk.answer id user call).run.Leads path (some (.error failure))) (ha : s.Answers path)
    (hcopy : ¬ (Job.call id user call).CopiesInPlace s.store)
    (hnew : ∀ name, .fresh .handle name ∈ path → s.store.get? name = none) :
    failure.kind ≠ .concurrentModification := by
  cases hcall : call.isReadOnly with
  | true =>
      have hreads := (onlyReads_answer hcall).asks_of_mem hl fun t _ => t.loads_true
      exact neverLate_answer hs htable hcall path failure hl
        (ha.answeredBy fun step hm => Taken.isIdle_of_isReading (hreads step hm))
  | false =>
      cases Mutates.replies hs htable (mutates_answer hcall) hl ha
        fun op arguments hasks => admits_of_asks hs hasks hcopy hnew with
      | refused hblank hresult =>
          cases hresult
          exact nofun
      | @stops op arguments failure? hasks hstops hresult =>
          cases failure? with
          | none => cases hresult
          | some failure' =>
              cases hresult
              exact hstops.kind_ne
      | commits hasks hp hanswered hresult => cases hresult

/-- A job that nobody disturbs never fails for having been too late. -/
theorem kind_ne_of_leads_process {job : Job} {path : List Taken} {failure : Failure}
    (hl : (desk.process job).Leads path (some (.error failure))) (ha : s.Answers path)
    (hcopy : ¬ job.CopiesInPlace s.store)
    (hnew : ∀ name, .fresh .handle name ∈ path → s.store.get? name = none) :
    failure.kind ≠ .concurrentModification := by
  cases job with
  | call id user call =>
      rw [process_call, Process.leads_map] at hl
      obtain ⟨_ | failure' | reply, hanswer, hr⟩ := hl
      · cases hr
      · cases hr
        exact kind_ne_of_leads_answer hs htable hanswer ha hcopy hnew
      · cases hr
  | create location stage content user =>
      rw [process_create, Process.leads_map] at hl
      obtain ⟨_ | failure' | id, hcreate, hr⟩ := hl
      · cases hr
      · cases hr
        exact kind_ne_of_leads_create hcreate ha
      · cases hr

/-- An undisturbed call that is to file a document where there is another one is
refused for that, if nothing else stands in its way. -/
theorem refused_of_leads_process {call : Call} {path : List Taken}
    {result : Option (Except Failure Product)}
    (hl : (desk.process (.call id user call)).Leads path result) (ha : s.Answers path)
    {stored : Stored} (hget : s.store.get? id = some stored) {place : Location}
    (hfiling : call.filing? stored.record = some (op, place)) (hnamed : place.IsNamed)
    (hallows : (Hints.ofHandle ⟨stored.record, stored.revision, user⟩).allows op none = true)
    {other : String} (hfind : s.store.find? place = some other) (hother : other ≠ id) :
    ∃ failure, result = some (.error failure) ∧ failure.kind = .invalidState := by
  have hcall : call.isReadOnly = false := by
    cases call <;> first | rfl | cases hfiling
  have hfree : ∀ {op arguments path changes t}, call.Asks op arguments →
      desk.Prepares id user op arguments path changes t →
      ¬ ∀ step ∈ path, step.AnsweredBy s := fun hasks hp hanswered =>
    hother (hp.not_occupied hs hanswered hget (hasks.filing hfiling).2.1 hfind)
  rw [process_call, Process.leads_map] at hl
  obtain ⟨result', hanswer, rfl⟩ := hl
  cases Mutates.replies hs htable (mutates_answer hcall) hanswer ha
    fun op arguments hasks _ _ _ hp hanswered => absurd hanswered (hfree hasks hp) with
  | refused hblank hresult =>
      rw [Call.isUsable_of_filing? hfiling hnamed] at hblank
      cases hblank
  | commits hasks hp hanswered hresult => exact absurd hanswered (hfree hasks hp)
  | stops hasks hstops hresult =>
      subst hresult
      obtain ⟨rfl, hplace, hrequest⟩ := hasks.filing hfiling
      cases hstops with
      | missing hmissing =>
          rw [hget] at hmissing
          cases hmissing
      | denied hget' hdenied =>
          rw [hget] at hget'
          cases hget'
          rw [hrequest, hallows] at hdenied
          cases hdenied
      | obstacle hget' hobstacle =>
          rw [hget] at hget'
          cases hget'
          exact ⟨_, rfl, hobstacle.kind_of_place hplace⟩
      | overflow hop =>
          subst hop
          cases hplace

end

end Desk

end Editorial
