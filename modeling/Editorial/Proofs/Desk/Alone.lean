import Editorial.Proofs.Desk.Committing
import Editorial.Proofs.System.Readings

/-!
# Jobs that run alone

A job that runs alone meets no other writer. If the system answers the steps
that prepare its commit and admits the commit, the job succeeds, and the store
afterwards is the store after that commit.

## Main results

* `runAt_of_settling` and `runAt_of_commit` — a job that runs alone ends with its
  commit.
* `runAt_answer` — so does a call, and it answers what it makes of that.
-/

namespace Editorial

namespace System

variable {α : Type} {readings : Readings} {s : System} {path : List Taken}
  {changes : List Change}

/-- The system after a set of changes was committed. -/
def committing (s : System) (changes : List Change) : System :=
  { s with store := (s.backend.commit s.store changes).2 }

theorem SameData.committing {s s' : System} (h : SameData s s') (changes : List Change) :
    SameData (s.committing changes) (s'.committing changes) := by
  refine ⟨h.backend, ?_, h.folders⟩
  show (s'.backend.commit s'.store changes).2 = (s.backend.commit s.store changes).2
  rw [h.backend, h.store]

/-- After steps that only read the commit succeeds if it does before them. -/
theorem exists_told_commit (hreads : ∀ t ∈ path, t.query.IsReading)
    (hanswered : ∀ t ∈ path, t.AnsweredBy s) (hgives : readings.Gives 0 path)
    (hcommit : (s.backend.commit s.store changes).1 = .committed) :
    ∃ s', Process.Told (answerAt readings) (s, 0) (path ++ [.commit changes .committed]) s' ∧
      SameData (s.committing changes) s'.1 ∧ s'.2 = path.length + 1 := by
  obtain ⟨s₁, htold, hsame, hn⟩ := exists_told (s := (s, 0)) hreads hanswered hgives
  refine ⟨(answerAt readings s₁ (.commit changes)).2,
    Process.told_append.2 ⟨s₁, htold, ?_, rfl⟩, ?_, ?_⟩
  · show Except.ok (s₁.1.backend.commit s₁.1.store changes).1 = Except.ok .committed
    rw [hsame.backend, hsame.store]
    exact congrArg _ hcommit
  · exact (hsame.committing changes).trans ⟨rfl, rfl, rfl⟩
  · show s₁.2 + 1 = path.length + 1
    rw [hn]
    omega

/-- A process that ends with its commit. -/
theorem runAt_of_commit {p : Process α} {a : α} (hreads : ∀ t ∈ path, t.query.IsReading)
    (hanswered : ∀ t ∈ path, t.AnsweredBy s) (hgives : readings.Gives 0 path)
    (hcommit : (s.backend.commit s.store changes).1 = .committed)
    (hl : p.Leads (path ++ [.commit changes .committed]) (some a)) :
    ∃ s', s.runAt readings p = (some a, s') ∧ SameData (s.committing changes) s' := by
  obtain ⟨s', htold, hsame, -⟩ := exists_told_commit hreads hanswered hgives hcommit
  exact ⟨s'.1, runAt_of_leads hl htold, hsame⟩

/-- A process that logs an event after its commit. -/
theorem runAt_of_settling {p : Process α} {a : α} {id user : String} {op : Operation}
    {t : Transaction} (hreads : ∀ t ∈ path, t.query.IsReading)
    (hanswered : ∀ t ∈ path, t.AnsweredBy s) (hgives : readings.Gives 0 path)
    (hcommit : (s.backend.commit s.store changes).1 = .committed)
    (hl : p.Leads (path ++ Desk.settling id user op changes t (readings.clock (path.length + 1)))
      (some a)) :
    ∃ s', s.runAt readings p = (some a, s') ∧ SameData (s.committing changes) s' := by
  obtain ⟨s₁, htold, hsame, hn⟩ := exists_told_commit hreads hanswered hgives hcommit
  let now := readings.clock (path.length + 1)
  let logged := (answerAt readings (answerAt readings s₁ .now).2
    (.log (Desk.notice id user op t now))).2
  have hlast : Process.Told (answerAt readings) s₁
      [.now now, ⟨.log (Desk.notice id user op t now), ()⟩] logged := by
    refine ⟨?_, rfl, rfl⟩
    show readings.clock s₁.2 = now
    rw [hn]
  have hlog : SameData s₁.1 logged.1 := ⟨rfl, rfl, rfl⟩
  have htold' := Process.told_append.2 ⟨s₁, htold, hlast⟩
  rw [List.append_assoc] at htold'
  exact ⟨logged.1, runAt_of_leads hl htold', hsame.trans hlog⟩

section

variable {desk : Desk} {id user : String} {call : Call} {op : Operation}

/-- A call that looks at the clock, prepares its operation from what the system answers
and has the commit admitted, answers what it makes of that. -/
theorem runAt_answer (htable : desk.table = .standard) {arguments : Arguments} {t : Transaction}
    {reply : Reply} (hprepares : desk.Prepares id user op arguments path changes t)
    (hl : ∀ now, (desk.answer id user call).run.Leads
      (.now (readings.clock 0) :: path ++ Desk.settling id user op changes t now)
      (some (.ok reply)))
    (hanswered : ∀ t ∈ path, t.AnsweredBy s) (hgives : readings.Gives 1 path)
    (hcommit : (s.backend.commit s.store changes).1 = .committed) :
    ∃ s', s.runAt readings (desk.process (.call id user call)) = (some (.ok (.reply reply)), s') ∧
      SameData (s.committing changes) s' := by
  let begun := readings.clock 0
  have hprocess : (desk.process (.call id user call)).Leads
      ((.now begun :: path) ++ Desk.settling id user op changes t
        (readings.clock ((.now begun :: path).length + 1))) (some (.ok (.reply reply))) :=
    Desk.leads_process_reply.2 (hl _)
  have hreads : ∀ step ∈ .now begun :: path, step.query.IsReading :=
    List.forall_mem_cons.2 ⟨trivial, hprepares.isReading htable⟩
  have hanswered' : ∀ step ∈ .now begun :: path, step.AnsweredBy s :=
    List.forall_mem_cons.2 ⟨trivial, hanswered⟩
  exact runAt_of_settling hreads hanswered' ⟨rfl, hgives⟩ hcommit hprocess

/-- A call that only reads, run alone, answers what it makes of what it is told. -/
theorem runAt_of_reading {reply : Reply}
    (hl : (desk.answer id user call).run.Leads path (some (.ok reply)))
    (hreads : ∀ t ∈ path, t.query.IsReading) (hanswered : ∀ t ∈ path, t.AnsweredBy s)
    (hgives : readings.Gives 0 path) :
    (s.runAt readings (desk.process (.call id user call))).1 = some (.ok (.reply reply)) := by
  obtain ⟨s', htold, -, -⟩ := exists_told (s := (s, 0)) hreads hanswered hgives
  rw [runAt_of_leads (Desk.leads_process_reply.2 hl) htold]

end

end System

end Editorial
