import Editorial.Proofs.Desk.Settling
import Editorial.Proofs.Pipeline.Timing

/-!
# Calls that break off

Whoever breaks off answers nothing and goes on with nothing, so a call that breaks off does
so in its last attempt, and before that attempt commits. With the standard table the attempt
was one to take a version. What it loaded and what the clock said then are the last two steps
of the call, and they are what decided it.

## Main results

* `breaksOff_of_leads_process` — how a call comes to break off.
-/

namespace Editorial

namespace Desk

/-- The last steps of the path load the document `id` and read the clock, which finds the
history of the document out of time. -/
def BreaksOff (id : String) (path : List Taken) : Prop :=
  ∃ before loaded now, path = before ++ [.load id (some loaded), .now now] ∧
    Snapshot.OutOfTime loaded.record.history now

variable {desk : Desk} {id user : String} {op : Operation} {arguments : Arguments}
  {path : List Taken}

theorem BreaksOff.after (h : BreaksOff id path) (first : List Taken) :
    BreaksOff id (first ++ path) := by
  obtain ⟨before, loaded, now, rfl, hout⟩ := h
  exact ⟨first ++ before, loaded, now, (List.append_assoc ..).symm, hout⟩

/-! ## Attempts -/

theorem breaksOff_of_leads_read (htable : desk.table = .standard)
    (hl : (desk.read id user op arguments).run.Leads path none) :
    op = .version ∧ BreaksOff id path := by
  rw [run_read, htable] at hl
  obtain ⟨answer, path', rfl, hanswer⟩ := (Process.leads_ask _ _ _ _).1 hl
  rcases answer with failure | _ | loaded
  · cases ((Process.leads_done _ _ _).1 hanswer).2
  · cases ((Process.leads_done _ _ _).1 hanswer).2
  · obtain ⟨fired?, hfired, hend⟩ := (Process.leads_map _ _ _ _).1 hanswer
    rw [Option.map_eq_none_iff.1 hend.symm] at hfired
    obtain ⟨rfl, -⟩ := Table.overflow_of_leads_fire hfired
    obtain ⟨-, now, rfl, hout⟩ := Table.leads_fire_version_none_iff.1 hfired
    exact ⟨rfl, [], loaded, now, rfl, hout⟩

/-- An attempt breaks off where its operation does. -/
theorem breaksOff_of_leads_attempt (htable : desk.table = .standard)
    (hl : (desk.attempt id user op arguments).run.Leads path none) :
    op = .version ∧ BreaksOff id path := by
  cases attemptEnds_of_leads htable hl with
  | broken hprepare =>
      rw [run_prepare] at hprepare
      obtain ⟨w?, hread, hend⟩ := (Process.leads_map _ _ _ _).1 hprepare
      rw [Option.map_eq_none_iff.1 hend.symm] at hread
      exact breaksOff_of_leads_read htable hread

/-- Of attempts in turn the last one does. -/
theorem breaksOff_of_leads_runFrom (htable : desk.table = .standard) {exhausted : Failure}
    {milliseconds left n : Nat}
    (hl : Process.Leads (ExceptT.run (Retry.runFrom (Process.pause milliseconds)
      (fun _ => desk.attempt id user op arguments) exhausted left n)) path none) :
    op = .version ∧ BreaksOff id path := by
  induction left generalizing n path with
  | zero =>
      rw [run_runFrom_zero, Process.leads_bind] at hl
      rcases hl with ⟨first, second, r, rfl, -, hend⟩ | ⟨-, hattempt⟩
      · rcases r with failure | t | _ <;> cases ((Process.leads_done _ _ _).1 hend).2
      · exact breaksOff_of_leads_attempt htable hattempt
  | succ left ih =>
      rw [run_runFrom_succ, Process.leads_bind] at hl
      rcases hl with ⟨first, second, r, rfl, -, hend⟩ | ⟨-, hattempt⟩
      · rcases r with failure | t | _
        · cases ((Process.leads_done _ _ _).1 hend).2
        · cases ((Process.leads_done _ _ _).1 hend).2
        · obtain ⟨u, rest, rfl, hrest⟩ := (Process.leads_ask _ _ _ _).1 hend
          obtain ⟨hop, hbreaks⟩ := ih hrest
          exact ⟨hop, (hbreaks.after [_]).after first⟩
      · exact breaksOff_of_leads_attempt htable hattempt

/-! ## Calls -/

theorem breaksOff_of_leads_execute (htable : desk.table = .standard)
    (hop : op.isReadOnly = false)
    (hl : (desk.execute id user op arguments).run.Leads path none) :
    op = .version ∧ BreaksOff id path := by
  unfold execute at hl
  rw [hop, if_neg Bool.false_ne_true] at hl
  exact breaksOff_of_leads_runFrom htable hl

theorem Mutates.breaksOff (htable : desk.table = .standard) {blank : Prop}
    {asks : Operation → Arguments → Prop} {f : Flow Reply}
    (hm : Mutates desk id user blank asks f) (hl : f.run.Leads path none) :
    ∃ arguments, asks .version arguments ∧ BreaksOff id path := by
  induction hm generalizing path with
  | @refused f fault hblank hrun =>
      rw [hrun] at hl
      cases ((Process.leads_done _ _ _).1 hl).2
  | @now next hnext ih =>
      rw [Flow.run_bind] at hl
      obtain ⟨begun, rest, rfl, hrest⟩ := (Process.leads_ask _ _ _ _).1 hl
      obtain ⟨arguments, hasks, hbreaks⟩ := ih begun hrest
      exact ⟨arguments, hasks, hbreaks.after [_]⟩
  | @execute op arguments finish hop hasks hends =>
      rw [Flow.run_bind, Process.leads_bind] at hl
      rcases hl with ⟨first, second, t?, rfl, -, hend⟩ | ⟨-, hexecute⟩
      · rcases t? with failure | t
        · cases ((Process.leads_done _ _ _).1 hend).2
        · obtain ⟨reply?, hfinish, -⟩ := hends t
          change Process.Leads (finish t).run second none at hend
          rw [hfinish] at hend
          cases ((Process.leads_done _ _ _).1 hend).2
      · obtain ⟨rfl, hbreaks⟩ := breaksOff_of_leads_execute htable hop hexecute
        exact ⟨arguments, hasks, hbreaks⟩

/-- A call that is to change something breaks off only if it is to take a version. -/
theorem breaksOff_of_leads_process (htable : desk.table = .standard) {call : Call}
    (hcall : call.isReadOnly = false)
    (hl : (desk.process (.call id user call)).Leads path none) :
    call = .version ∧ BreaksOff id path := by
  rw [process_call, Process.leads_map] at hl
  obtain ⟨result, hanswer, hend⟩ := hl
  rw [Option.map_eq_none_iff.1 hend.symm] at hanswer
  obtain ⟨arguments, hasks, hbreaks⟩ := (mutates_answer hcall).breaksOff htable hanswer
  exact ⟨hasks.eq_of_asking? rfl, hbreaks⟩

end Desk

end Editorial
