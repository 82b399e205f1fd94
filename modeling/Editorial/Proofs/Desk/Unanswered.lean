import Editorial.Proofs.Desk.Logging
import Editorial.Proofs.Pipeline.Noting
import Editorial.Proofs.System.Surroundings

/-!
# Calls that fail after their commit

A call that is to answer with a document, or with the id of a request, looks for it when
everything else is done: its commit went through and the event is logged. With the standard
table it is always there. Tables can be made of any pipelines, and one without a task that
notes it leaves the call with nothing to answer. The call then fails, although it was carried
out.

That is the only way in which a call that failed can have changed anything. Every other
failure comes before the commit, or from it. It does not happen with tables that have a task
for what is to be answered in each pipeline that needs one (`Table.NotesAnswers`).

## Main results

* `failed_call_unchanged_or_unanswered` — what a call that failed leaves, if nobody else writes.
-/

namespace Editorial

/-- In every pipeline for an operation that hands a document back, or files a request, there
is a task that notes it. -/
structure Table.NotesAnswers (table : Table) : Prop where
  result : ∀ rule ∈ table.rules, rule.operation.handsBack = true →
    ∃ task ∈ rule.tasks, task.notesResult = true
  request : ∀ rule ∈ table.rules, rule.operation.filed?.isSome = true →
    ∃ task ∈ rule.tasks, task.notesRequest = true

theorem Table.notesAnswers_standard : standard.NotesAnswers := ⟨by decide, by decide⟩

namespace Desk

variable {desk : Desk} {id user : String} {op : Operation} {arguments : Arguments} {call : Call}
  {failure : Failure}

/-- What a call was to answer with is missing from what its pipeline has noted. -/
inductive Lacks (id : String) (op : Operation) (t : Transaction) : Failure → Prop
  | document (hback : op.handsBack = true) (hd : t.result = none) :
      Lacks id op t (.state (.noDocument op id))
  | request (hfiled : op.filed?.isSome = true) (hq : t.request = none) :
      Lacks id op t (.state (.noRequestFiled op id))

/-- The call failed, but what its pipeline prepared is committed and logged, once. -/
inductive Unanswered (desk : Desk) (id user : String) (call : Call) (failure : Failure)
    (s s' : System) : Prop
  | intro {op : Operation} {arguments : Arguments} {path : List Taken} {changes : List Change}
      {t : Transaction} {now : Instant} (hasks : call.Asks op arguments)
      (hprepared : (desk.prepare id user op arguments).run.Leads path (some (.ok (changes, t))))
      (hstore : s'.store = s.store.applyAll changes)
      (hlog : s'.log = (s.log.append (notice id user op t now)).2) (hlacks : Lacks id op t failure)

/-! ## What is noted -/

/-- What a pipeline brings about is true of the transaction that is prepared. -/
theorem of_leads_prepare {T : Transaction → Prop}
    (hfire : ∀ ctx, (desk.table.fire ctx op).Brings T) {path : List Taken} {changes : List Change}
    {t : Transaction}
    (hl : (desk.prepare id user op arguments).run.Leads path (some (.ok (changes, t)))) : T t := by
  obtain ⟨w, hread, -, rfl⟩ := leads_prepare_ok_iff.1 hl
  obtain ⟨stored, path', -, hfired⟩ := leads_read_ok_iff.1 hread
  exact hfire _ _ _ _ _ hfired

/-- With a table that has the tasks for it nothing is missing. -/
theorem not_lacks (htable : desk.table.NotesAnswers) {path : List Taken} {changes : List Change}
    {t : Transaction}
    (hl : (desk.prepare id user op arguments).run.Leads path (some (.ok (changes, t)))) :
    ¬ Lacks id op t failure := by
  intro hlacks
  cases hlacks with
  | document hback hd =>
      have hnoted : Task.HasResult t := of_leads_prepare (fun ctx =>
        Table.brings_fire (Transaction.isKept_result _) ctx fun rule hm hop => by
          obtain ⟨task, htask, hnotes⟩ := htable.result rule hm (hop ▸ hback)
          exact ⟨task, htask, fun fire => Task.brings_run_of_notesResult ctx fire hnotes⟩) hl
      rw [Task.HasResult, hd] at hnoted
      cases hnoted
  | request hfiled hq =>
      have hnoted : Task.HasRequest t := of_leads_prepare (fun ctx =>
        Table.brings_fire (Transaction.isKept_request _) ctx fun rule hm hop => by
          obtain ⟨task, htask, hnotes⟩ := htable.request rule hm (hop ▸ hfiled)
          exact ⟨task, htask, fun fire => Task.brings_run_of_notesRequest ctx fire hnotes⟩) hl
      rw [Task.HasRequest, hq] at hnoted
      cases hnoted

/-! ## What a failed call has done -/

theorem Concludes.lacks {t : Transaction} (h : Concludes id op t (.error failure)) :
    Lacks id op t failure := by
  cases h with
  | noDocument hback hd => exact .document hback hd
  | noRequest hfiled hq => exact .request hfiled hq

/-- A call that failed has done nothing, or it is settled and lacks what it was to answer. -/
theorem leads_answer_error {path : List Taken}
    (hl : (desk.answer id user call).run.Leads path (some (.error failure))) :
    (∀ step ∈ path, step.IsIdle) ∨
      ∃ idle op arguments last changes t now, path = idle ++ settling id user op changes t now ∧
        (∀ step ∈ idle, step.IsIdle) ∧ call.Asks op arguments ∧
        (desk.prepare id user op arguments).run.Leads last (some (.ok (changes, t))) ∧
        Lacks id op t failure := by
  have hstanding := Process.standing_of_reaches (logs_answer desk id user call []) hl
  generalize hend : Process.ended (some (Except.error failure)) = rest at hstanding
  cases hstanding with
  | before hidle hlogs => exact .inl hidle
  | silent hidle hmade =>
      obtain ⟨_, _, _, _, _, _, _, _, _, _, hnotice⟩ := hmade
      cases hnotice
  | committed hidle hmade => cases hend
  | timed hidle hmade => cases hend
  | @logged idle changes notice a now hidle hmade =>
      cases hend
      obtain ⟨op, arguments, t, hasks, -, hconcludes, earlier, last, -, hprepared, hnotice⟩ := hmade
      cases hnotice
      exact .inr ⟨idle, op, arguments, last, changes, t, now, rfl, hidle, hasks, hprepared,
        hconcludes.lacks⟩

/-- The steps that settle a call commit and log once. -/
theorem told_settling {w : Surroundings} (hw : w.AreQuiet) {state state' : Surroundings.State}
    {changes : List Change} {t : Transaction} {now : Instant}
    (ht : Process.Told w.answer state (settling id user op changes t now) state') :
    state'.system.store = state.system.store.applyAll changes ∧
      state'.system.log = (state.system.log.append (notice id user op t now)).2 := by
  have hsteps : Process.Told w.answer state ([.commit changes .committed] ++
      ([.now now] ++ [⟨.log (notice id user op t now), ()⟩])) state' := ht
  obtain ⟨state₁, hcommit, hrest⟩ := Process.told_append.1 hsteps
  obtain ⟨state₂, hnow, hlog⟩ := Process.told_append.1 hrest
  obtain ⟨hstore₁, hlog₁⟩ := hw.store_of_commit hcommit
  have hidle : ∀ step ∈ [Taken.now now], step.IsIdle := fun step hm => by
    rw [List.mem_singleton.1 hm]
    trivial
  obtain ⟨hstore₂, hlog₂⟩ := hw.keepsAll hidle hnow
  obtain ⟨hstore₃, hlog₃⟩ := hw.log_of_log hlog
  refine ⟨?_, ?_⟩
  · rw [hstore₃, hstore₂, hstore₁]
  · rw [hlog₃, hlog₂, hlog₁]

theorem exists_error_of_isOk {α : Type} {result : Option (Except Failure α)}
    (h : result.map Except.isOk = some false) : ∃ failure, result = some (.error failure) := by
  rcases result with _ | failure | a
  · cases h
  · exact ⟨failure, rfl⟩
  · cases h

/-- If nobody else writes, a call that failed leaves the store and the log as they were, or it
was carried out and is unanswered. It leaves them in any case if the table has a task for
what is to be answered wherever that is needed. -/
theorem failed_call_unchanged_or_unanswered (desk : Desk) (w : Surroundings) (hw : w.AreQuiet)
    (s : System) (id user : String) (call : Call) (failure : Failure)
    (hfailed : (w.run (desk.answer id user call).run s).1 = some (.error failure)) :
    let s' := w.after (desk.answer id user call).run s
    (s.KeepsAll s' ∨ desk.Unanswered id user call failure s s') ∧
      (desk.table.NotesAnswers → s.KeepsAll s') := by
  intro s'
  obtain ⟨path, hl, ht⟩ :=
    Process.exists_leads_run w.answer (desk.answer id user call).run ⟨[], s⟩
  have hresult : ((desk.answer id user call).run.run w.answer ⟨[], s⟩).1 =
    some (.error failure) := hfailed
  rw [hresult] at hl
  rcases leads_answer_error hl with
    hidle | ⟨idle, op, arguments, last, changes, t, now, rfl, hidle, hasks, hprepared, hlacks⟩
  · have hkeeps : s.KeepsAll s' := hw.keepsAll hidle ht
    exact ⟨.inl hkeeps, fun _ => hkeeps⟩
  · obtain ⟨state, hbefore, hsettling⟩ := Process.told_append.1 ht
    obtain ⟨hstore, hlog⟩ := hw.keepsAll hidle hbefore
    obtain ⟨hstore', hlog'⟩ := told_settling hw hsettling
    rw [hstore] at hstore'
    rw [hlog] at hlog'
    exact ⟨.inr (.intro hasks hprepared hstore' hlog' hlacks), fun htable =>
      absurd hlacks (not_lacks htable hprepared)⟩

/-- Somebody else holds the draft that a user wants to edit. -/
theorem failed_call_unchanged_or_unanswered_denied :
    let v : Variant := { Variant.make "v" .draft .null "ann" .epoch with holder := some "ann" }
    let s : System := { store := Keyed.ofList [("d", ⟨.single "d" none v, 1⟩)] }
    let desk : Desk := {}
    let w : Surroundings := ⟨fun _ _ => "n", fun _ s => s, fun _ _ => none⟩
    let p := (desk.answer "d" "bob" .obtain).run
    w.AreQuiet ∧ (∃ failure, (w.run p s).1 = some (.error failure)) ∧
      s.KeepsAll (w.after p s) := by
  intro v s desk w p
  have hquiet : w.AreQuiet := fun _ _ => ⟨rfl, rfl⟩
  have hresult : (w.run p s).1.map Except.isOk = some false := by decide +kernel
  obtain ⟨failure, hfailed⟩ := exists_error_of_isOk hresult
  have hleaves :=
    failed_call_unchanged_or_unanswered desk w hquiet s "d" "bob" .obtain failure hfailed
  exact ⟨hquiet, ⟨failure, hfailed⟩, hleaves.2 Table.notesAnswers_standard⟩

/-- With a table that has no tasks the same call fails after its commit: the record has another
revision, and there is an event. -/
theorem failed_call_commits :
    let v : Variant := .make "v" .unpublished .null "ann" .epoch
    let s : System := { store := Keyed.ofList [("d", ⟨.single "d" none v, 1⟩)] }
    let desk : Desk := { table := ⟨Rule.covering [], by decide, by decide⟩ }
    let w : Surroundings := ⟨fun _ _ => "n", fun _ s => s, fun _ _ => none⟩
    let p := (desk.answer "d" "bob" .obtain).run
    Table.ofRules (Rule.covering []) = .ok desk.table ∧ w.AreQuiet ∧
      (∃ failure, (w.run p s).1 = some (.error failure)) ∧
      (w.after p s).store ≠ s.store ∧ (w.after p s).log ≠ s.log := by
  intro v s desk w p
  have hquiet : w.AreQuiet := fun _ _ => ⟨rfl, rfl⟩
  have hresult : (w.run p s).1.map Except.isOk = some false := by decide +kernel
  exact ⟨Table.ofRules_rules desk.table, hquiet, exists_error_of_isOk hresult, by decide +kernel,
    by decide +kernel⟩

end Desk

end Editorial
