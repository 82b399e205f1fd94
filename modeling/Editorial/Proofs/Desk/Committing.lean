import Editorial.Proofs.Desk.Commits
import Editorial.Proofs.Desk.Settling

/-!
# What leads a job to its commit

Most calls are one operation: they read the clock, turn to the operation and
answer what it hands back. Some only read. A job that makes a document commits
without an operation. So there are two ways a job can come to a commit, and in
either of them the job succeeds if the commit does.

## Main results

* `turnsTo_of_reaches` — a call comes to a commit by the last attempt at its
  operation.
* `committing_of_reaches` — how a job comes to a commit.
* `meets_of_leaves` — a job keeps to what all that it can prepare keeps to.
-/

namespace Editorial

namespace Desk

variable {desk : Desk} {id user : String} {op : Operation}

/-! ## From a call to its operation -/

/-- An operation that is prepared at once and then committed is followed by what the
call makes of it. -/
theorem leads_execute_bind (htable : desk.table = .standard) (hop : op.isReadOnly = false)
    {arguments : Arguments} {path : List Taken} {changes : List Change} {t : Transaction}
    (hp : desk.Prepares id user op arguments path changes t) {finish : Transaction → Flow Reply}
    {reply : Reply} (hend : (finish t).run = .done (.ok reply)) (now : Instant) :
    (desk.execute id user op arguments >>= finish).run.Leads
      (path ++ settling id user op changes t now) (some (.ok reply)) := by
  rw [Flow.run_bind, Process.leads_bind_some]
  refine ⟨_, [], _, (List.append_nil _).symm, leads_execute htable hop hp now, ?_⟩
  show Process.Leads (finish t).run [] _
  rw [hend, Process.leads_done]
  exact ⟨rfl, rfl⟩

/-- After the steps `opening` a call is all about an operation: if that is
prepared at once and the commit succeeds, so does the call. -/
structure TurnsTo (desk : Desk) (id user : String) (f : Flow Reply) (opening : List Taken)
    (op : Operation) (arguments : Arguments) : Prop where
  opens : ∀ t ∈ opening, t.query = .now
  settles : ∀ {path changes t}, desk.Prepares id user op arguments path changes t → ∀ now,
    ∃ reply, f.run.Leads (opening ++ (path ++ settling id user op changes t now))
      (some (.ok reply))

/-- A call comes to a commit by the last attempt at its operation. -/
theorem Mutates.turnsTo (htable : desk.table = .standard) {blank : Prop}
    {asks : Operation → Arguments → Prop} {f : Flow Reply}
    (hm : Mutates desk id user blank asks f) {journal : List Taken}
    {changes : List Change} {next : Except Failure Verdict → Process (Except Failure Reply)}
    (hr : f.run.Reaches journal (.ask (.commit changes) next)) :
    ∃ opening op arguments lost last t, journal = opening ++ (lost ++ last) ∧ IsLost id lost ∧
      asks op arguments ∧ desk.Prepares id user op arguments last changes t ∧
      TurnsTo desk id user f opening op arguments := by
  induction hm generalizing journal with
  | @refused f fault hblank hrun =>
      rw [hrun] at hr
      cases ((Process.reaches_done _ _ _).1 hr).2
  | @now next' hnext ih =>
      rw [Flow.run_bind] at hr
      rcases (Process.reaches_ask _ _ _ _).1 hr with ⟨-, he⟩ | ⟨now, journal', rfl, hr'⟩
      · cases he
      · obtain ⟨opening, op, arguments, lost, last, t, rfl, hlost, hasks, hprepares, hturns⟩ :=
          ih now hr'
        refine ⟨.now now :: opening, op, arguments, lost, last, t, rfl, hlost, hasks, hprepares,
          ?_, ?_⟩
        · intro step hm
          rcases List.mem_cons.1 hm with rfl | hm
          · rfl
          · exact hturns.opens step hm
        · intro path changes t hprepares now'
          obtain ⟨reply, hl⟩ := hturns.settles hprepares now'
          rw [Flow.run_bind]
          exact ⟨reply, (Process.leads_ask_cons _ _ _ _ _).2 hl⟩
  | @execute op arguments finish hop hasks hends =>
      rw [Flow.run_bind, Process.reaches_bind_ask] at hr
      rcases hr with ⟨next', hr', -⟩ | ⟨first, second, r, -, -, hr'⟩
      · obtain ⟨lost, last, t, rfl, hlost, hprepares⟩ := reaches_execute_commit htable hop hr'
        refine ⟨[], op, arguments, lost, last, t, rfl, hlost, hasks, hprepares, ?_, ?_⟩
        · intro step hm
          cases hm
        · intro path changes t hprepares now
          obtain ⟨reply?, hend, hconcludes⟩ := hends t
          obtain ⟨reply, rfl⟩ : ∃ reply, reply? = .ok reply := by
            cases hprepares with
            | loaded hallows heffect hchanges => exact hconcludes.exists_reply heffect
          exact ⟨reply, leads_execute_bind htable hop hprepares hend now⟩
      · rcases r with failure | t
        · cases ((Process.reaches_done _ _ _).1 hr').2
        · obtain ⟨reply?, hend, -⟩ := hends t
          change Process.Reaches (finish t).run second _ at hr'
          rw [hend] at hr'
          cases ((Process.reaches_done _ _ _).1 hr').2

/-- A change that is prepared at once and then committed has succeeded. -/
theorem leads_change (htable : desk.table = .standard) (hop : op.isReadOnly = false)
    (give : Arguments → Arguments) (begun : Instant) {path : List Taken} {changes : List Change}
    {t : Transaction} (hp : desk.Prepares id user op (give { now := begun }) path changes t)
    (now : Instant) :
    (desk.change id user op give).run.Leads
      (.now begun :: path ++ settling id user op changes t now) (some (.ok .done)) := by
  unfold change
  rw [Flow.run_bind]
  exact (Process.leads_ask_cons _ _ _ _ _).2 (leads_execute_bind htable hop hp rfl now)

/-- So has a call that hands back the document it is given then. -/
theorem leads_fetch (htable : desk.table = .standard) (hop : op.isReadOnly = false)
    (give : Arguments → Arguments) (begun : Instant) {path : List Taken} {changes : List Change}
    {t : Transaction} (hp : desk.Prepares id user op (give { now := begun }) path changes t)
    {d : Document} (hd : t.result = some d) (now : Instant) :
    (desk.fetch id user op give).run.Leads
      (.now begun :: path ++ settling id user op changes t now) (some (.ok (.document d))) := by
  unfold fetch
  rw [Flow.run_bind]
  refine (Process.leads_ask_cons _ _ _ _ _).2 (leads_execute_bind htable hop hp ?_ now)
  rw [hd]
  rfl

/-- A call that only reads hands back the document it finds. -/
theorem leads_fetch_read (hop : op.isReadOnly = true) (give : Arguments → Arguments)
    (begun : Instant) {path : List Taken} {w : Work}
    (hl : (desk.read id user op (give { now := begun })).run.Leads path (some (.ok w)))
    {d : Document} (hd : w.transaction.result = some d) :
    (desk.fetch id user op give).run.Leads (.now begun :: path) (some (.ok (.document d))) := by
  have hexecute : desk.execute id user op (give { now := begun }) =
      desk.read id user op (give { now := begun }) >>= fun w => pure w.transaction := by
    unfold execute
    rw [hop, if_pos rfl]
  unfold fetch
  rw [Flow.run_bind]
  refine (Process.leads_ask_cons _ _ _ _ _).2 ?_
  show Process.Leads (desk.execute id user op (give { now := begun }) >>= _ : Flow Reply).run _ _
  rw [hexecute, bind_assoc, Flow.run_bind, Process.leads_bind_some]
  refine ⟨_, [], _, (List.append_nil _).symm, hl, ?_⟩
  simp only [pure_bind, hd]
  exact (Process.leads_done _ _ _).2 ⟨rfl, rfl⟩

/-! ## Jobs -/

/-- How a job comes to a commit, and that it succeeds if it gets there and the
commit does. -/
inductive Committing (desk : Desk) : Job → List Taken → List Change → Prop
  | call {id user : String} {call : Call} {opening lost last : List Taken} {op : Operation}
      {arguments : Arguments} {changes : List Change} {t : Transaction}
      (hopens : ∀ t ∈ opening, t.query = .now) (hlost : IsLost id lost)
      (hprepares : desk.Prepares id user op arguments last changes t)
      (hsettles : ∀ {path changes t}, desk.Prepares id user op arguments path changes t → ∀ now,
        ∃ product, (desk.process (.call id user call)).Leads
          (opening ++ (path ++ settling id user op changes t now)) (some (.ok product))) :
      Committing desk (.call id user call) (opening ++ (lost ++ last)) changes
  | create {location : Option Location} {stage : Stage} {content : Payload} {user id v : String}
      {now : Instant} {made : Variant} (hnamed : ∀ l, location = some l → l.IsNamed)
      (hsettles : (desk.process (.create location stage content user)).Leads
        [.fresh .handle id, .fresh .variant v, .now now,
          .commit [.put (.single id location made) none] .committed]
        (some (.ok (.created id))))
      (hmade : made.stage = stage ∧ made.content = content) :
      Committing desk (.create location stage content user)
        [.fresh .handle id, .fresh .variant v, .now now] [.put (.single id location made) none]

/-- How a call comes to a commit. -/
theorem turnsTo_of_reaches (htable : desk.table = .standard) {call : Call}
    {journal : List Taken} {changes : List Change}
    {next : Except Failure Verdict → Process (Except Failure Product)}
    (hr : (desk.process (.call id user call)).Reaches journal (.ask (.commit changes) next)) :
    ∃ opening op arguments lost last t, journal = opening ++ (lost ++ last) ∧ IsLost id lost ∧
      call.Asks op arguments ∧ desk.Prepares id user op arguments last changes t ∧
      TurnsTo desk id user (desk.answer id user call) opening op arguments := by
  rw [process_call, Process.reaches_bind_ask] at hr
  rcases hr with ⟨next', hr', -⟩ | ⟨first, second, r, -, -, hr'⟩
  · cases hcall : call.isReadOnly with
    | true =>
        have hcommit := (onlyReads_answer hcall).asks_of_reaches hr' fun t _ => t.loads_true
        exact False.elim hcommit
    | false => exact (mutates_answer hcall).turnsTo htable hr'
  · cases ((Process.reaches_done _ _ _).1 hr').2

/-- A call of which the caller only learns that it was carried out judges dates by the
instant at which it begins. -/
theorem begins_of_reaches_change (htable : desk.table = .standard) (hop : op.isReadOnly = false)
    {call : Call} {give : Arguments → Arguments}
    (hcall : desk.answer id user call = desk.change id user op give) {journal : List Taken}
    {changes : List Change} {next : Except Failure Verdict → Process (Except Failure Product)}
    (hr : (desk.process (.call id user call)).Reaches journal (.ask (.commit changes) next)) :
    ∃ begun lost last t, journal = .now begun :: (lost ++ last) ∧ IsLost id lost ∧
      desk.Prepares id user op (give { now := begun }) last changes t := by
  rw [process_call, hcall, Process.reaches_bind_ask] at hr
  rcases hr with ⟨next', hr', -⟩ | ⟨first, second, r, -, -, hr'⟩
  · unfold change at hr'
    rw [Flow.run_bind] at hr'
    rcases (Process.reaches_ask _ _ _ _).1 hr' with ⟨-, he⟩ | ⟨begun, journal', rfl, hrest⟩
    · cases he
    · refine ⟨begun, ?_⟩
      change Process.Reaches (desk.execute id user op (give { now := begun }) >>= _ :
        Flow Reply).run journal' _ at hrest
      rw [Flow.run_bind, Process.reaches_bind_ask] at hrest
      rcases hrest with ⟨next'', hexecute, -⟩ | ⟨first, second, r, -, -, hend⟩
      · obtain ⟨lost, last, t, rfl, hlost, hprepares⟩ :=
          reaches_execute_commit htable hop hexecute
        exact ⟨lost, last, t, rfl, hlost, hprepares⟩
      · rcases r with failure | t <;> cases ((Process.reaches_done _ _ _).1 hend).2
  · cases ((Process.reaches_done _ _ _).1 hr').2

theorem committing_call (htable : desk.table = .standard) {call : Call} {journal : List Taken}
    {changes : List Change} {next : Except Failure Verdict → Process (Except Failure Product)}
    (hr : (desk.process (.call id user call)).Reaches journal (.ask (.commit changes) next)) :
    Committing desk (.call id user call) journal changes := by
  obtain ⟨opening, op, arguments, lost, last, t, rfl, hlost, -, hprepares, hturns⟩ :=
    turnsTo_of_reaches htable hr
  refine .call hturns.opens hlost hprepares fun hprepares' now => ?_
  obtain ⟨reply, hl⟩ := hturns.settles hprepares' now
  exact ⟨.reply reply, leads_process_reply.2 hl⟩

/-- The job to make a document fails at once, or it takes two names and the time and commits
the document. -/
theorem process_create_cases (desk : Desk) (location : Option Location) (stage : Stage)
    (content : Payload) (user : String) :
    (∃ failure, desk.process (.create location stage content user) = .done (.error failure)) ∨
      (∀ l, location = some l → l.IsNamed) ∧ ∃ refused : String → Failure,
        desk.process (.create location stage content user) =
          .ask (.fresh .handle) fun id => .ask (.fresh .variant) fun v => .ask .now fun now =>
            .ask (.commit [.put (.single id location (.initial v stage content user now)) none]) fun
              | .ok .committed => .done (.ok (.created id))
              | .ok (.conflict _) => .done (.error (refused id))
              | .error failure => .done (.error failure) := by
  rw [process_create]
  rcases run_create_cases location stage content user with ⟨fault, hrun⟩ | ⟨hnamed, refused, hrun⟩
  · exact Or.inl ⟨.argument fault, by rw [hrun]; rfl⟩
  · refine Or.inr ⟨hnamed, fun id => .state (refused id), ?_⟩
    rw [hrun, run_createAt]
    simp only [Process.bind_ask]
    congr
    funext id
    congr
    funext v
    congr
    funext now
    congr
    funext answer
    rcases answer with failure | _ | id <;> rfl

/-- What the job to make a document commits. -/
theorem reaches_create_commit {location : Option Location} {stage : Stage} {content : Payload}
    {journal : List Taken} {changes : List Change}
    {next : Except Failure Verdict → Process (Except Failure Product)}
    (hr : (desk.process (.create location stage content user)).Reaches journal
      (.ask (.commit changes) next)) :
    (∀ l, location = some l → l.IsNamed) ∧
      ∃ id v now, journal = [.fresh .handle id, .fresh .variant v, .now now] ∧
        changes = [.put (.single id location (.initial v stage content user now)) none] := by
  rcases process_create_cases desk location stage content user with
    ⟨failure, hprocess⟩ | ⟨hnamed, refused, hprocess⟩
  · rw [hprocess] at hr
    cases ((Process.reaches_done _ _ _).1 hr).2
  · rw [hprocess] at hr
    rcases (Process.reaches_ask _ _ _ _).1 hr with ⟨-, he⟩ | ⟨id, path₁, rfl, hr₁⟩
    · cases he
    rcases (Process.reaches_ask _ _ _ _).1 hr₁ with ⟨-, he⟩ | ⟨v, path₂, rfl, hr₂⟩
    · cases he
    rcases (Process.reaches_ask _ _ _ _).1 hr₂ with ⟨-, he⟩ | ⟨now, path₃, rfl, hr₃⟩
    · cases he
    rcases (Process.reaches_ask _ _ _ _).1 hr₃ with ⟨rfl, he⟩ | ⟨answer, path₄, rfl, hr₄⟩
    · cases he
      exact ⟨hnamed, id, v, now, rfl, rfl⟩
    · rcases answer with failure | _ | id' <;> cases ((Process.reaches_done _ _ _).1 hr₄).2

theorem committing_create {location : Option Location} {stage : Stage} {content : Payload}
    {journal : List Taken} {changes : List Change}
    {next : Except Failure Verdict → Process (Except Failure Product)}
    (hr : (desk.process (.create location stage content user)).Reaches journal
      (.ask (.commit changes) next)) :
    Committing desk (.create location stage content user) journal changes := by
  obtain ⟨hnamed, id, v, now, rfl, rfl⟩ := reaches_create_commit hr
  rcases process_create_cases desk location stage content user with
    ⟨failure, hprocess⟩ | ⟨-, refused, hprocess⟩
  · rw [hprocess] at hr
    cases ((Process.reaches_done _ _ _).1 hr).2
  · refine .create hnamed ?_ ⟨Variant.stage_initial .., Variant.content_initial ..⟩
    rw [hprocess]
    simp only [Process.leads_ask_cons]
    exact (Process.leads_done _ _ _).2 ⟨rfl, rfl⟩

/-- How a job comes to a commit. -/
theorem committing_of_reaches (htable : desk.table = .standard) {job : Job}
    {journal : List Taken} {changes : List Change}
    {next : Except Failure Verdict → Process (Except Failure Product)}
    (hr : (desk.process job).Reaches journal (.ask (.commit changes) next)) :
    Committing desk job journal changes := by
  cases job with
  | call id user call => exact committing_call htable hr
  | create location stage content user => exact committing_create hr

/-- A job commits only records with a property, as long as it loads only such, if all that
its call may prepare leaves only such and the document that it makes is one. -/
theorem meets_of_leaves (htable : desk.table = .standard) {P : Record → Prop} {job : Job}
    (hcall : ∀ {id user call op arguments path changes t}, job = .call id user call →
      call.Asks op arguments → desk.Prepares id user op arguments path changes t →
      (∀ step ∈ path, step.Loads P) → ∀ change ∈ changes, change.Leaves P)
    (hcreate : ∀ {location stage content user} (id v : String) (now : Instant),
      job = .create location stage content user → (∀ l, location = some l → l.IsNamed) →
      P (.single id location (.initial v stage content user now))) :
    (desk.process job).Meets (Query.Commits P) (Taken.Loads P) fun _ => True := by
  refine Process.meets_of_reaches fun path query next hr hloads => ?_
  cases query with
  | commit changes =>
      cases job with
      | call id user call =>
          obtain ⟨opening, op, arguments, lost, last, t, rfl, -, hasks, hprepares, -⟩ :=
            turnsTo_of_reaches htable hr
          refine hcall rfl hasks hprepares fun step hm => ?_
          exact hloads step (List.mem_append_right _ (List.mem_append_right _ hm))
      | create location stage content user =>
          obtain ⟨hnamed, id, v, now, -, rfl⟩ := reaches_create_commit hr
          intro change hm
          rw [List.mem_singleton.1 hm]
          exact hcreate id v now rfl hnamed
  | now | fresh kind | load id | find location | folder category container
  | pause milliseconds | log notice => trivial

end Desk

end Editorial
