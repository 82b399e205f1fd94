import Editorial.Proofs.System.Surroundings

/-!
# All or nothing

A call either does what it was asked for completely or does nothing at all,
whatever happens around it: others may change the store between any two of its
steps, loads and lookups may fail, commits may fail or meet conflicts, as often as
they like. A failure can come at any point of any attempt, also when the attempt
has already changed its own copy of the record, but none can come once the commit
went through.

## Main results

* `answer_all_or_nothing` — what a call leaves in the store and the log.
-/

namespace Editorial

/-- The steps of a call by `user` about the record `id` that was carried out: one
made the changes of a commit, then one logged an event about the call, and no other
did anything. -/
inductive CarriedOut (id user : String) : List Occurrence → Prop
  | intro {earlier : List Occurrence} {committed told logged : Occurrence}
      {changes : List Change} {notice : Notice} (hearlier : ∀ o ∈ earlier, o.LeavesAll)
      (hcommitted : committed.Commits changes) (htold : told.LeavesAll)
      (hlogged : logged.Logs notice) (hhandle : notice.handle = id) (huser : notice.user = user) :
      CarriedOut id user (earlier ++ [committed, told, logged])

/-- What the steps of a call did to the store and the log, by what came of it:
nothing if it failed or broke off, nothing if it only reads, and else all it was
asked for. -/
structure AllOrNothing (id user : String) (call : Call)
    (run : Option (Except Failure Reply) × List Occurrence) : Prop where
  nothing : (∀ reply, run.1 ≠ some (.ok reply)) → ∀ o ∈ run.2, o.LeavesAll
  reading : call.isReadOnly = true → ∀ o ∈ run.2, o.LeavesAll
  all : ∀ reply, run.1 = some (.ok reply) → call.isReadOnly = false → CarriedOut id user run.2

namespace Desk

variable {id user : String}

/-- Steps that were all idle did nothing. -/
theorem leavesAll_of_isIdle {trace : List Occurrence} (hfaithful : ∀ o ∈ trace, o.IsFaithful)
    (hidle : ∀ step ∈ trace.map Occurrence.step, step.IsIdle) : ∀ o ∈ trace, o.LeavesAll :=
  fun o hm => (hfaithful o hm).leavesAll (hidle o.step (List.mem_map_of_mem hm))

/-- A call that is settled was carried out. -/
theorem Settles.carriedOut {desk : Desk} {op : Operation} {arguments : Arguments}
    {t : Transaction} (htable : desk.table = .standard) {trace : List Occurrence}
    (h : desk.Settles id user op arguments (trace.map Occurrence.step) t)
    (hfaithful : ∀ o ∈ trace, o.IsFaithful) : CarriedOut id user trace := by
  obtain ⟨idle, last, changes, now, hsteps, hidle, hp⟩ := h
  rw [← List.append_assoc, List.map_eq_append_iff] at hsteps
  obtain ⟨earlier, rest, rfl, hearlier, hrest⟩ := hsteps
  obtain ⟨committed, rest, rfl, hcommitted, hrest⟩ := List.map_eq_cons_iff.1 hrest
  obtain ⟨told, rest, rfl, htold, hrest⟩ := List.map_eq_cons_iff.1 hrest
  obtain ⟨logged, rest, rfl, hlogged, hrest⟩ := List.map_eq_cons_iff.1 hrest
  obtain rfl := List.map_eq_nil_iff.1 hrest
  have hof : ∀ {o}, o ∈ [committed, told, logged] → o.IsFaithful := fun hm =>
    hfaithful _ (List.mem_append_right _ hm)
  have hquiet : ∀ o ∈ earlier, o.LeavesAll := by
    refine leavesAll_of_isIdle (fun o hm => hfaithful o (List.mem_append_left _ hm)) ?_
    rw [hearlier]
    exact Taken.forall_isIdle_append.2 ⟨hidle, hp.isIdle htable⟩
  have htold' : told.step.IsIdle := by
    rw [htold]
    trivial
  exact .intro hquiet ((hof (by simp)).commits hcommitted) ((hof (by simp)).leavesAll htold')
    ((hof (by simp)).logs hlogged) rfl rfl

/-- With the standard table a call does all or nothing, in whatever surroundings
and from whatever system. -/
theorem answer_all_or_nothing (desk : Desk) (htable : desk.table = .standard) (w : Surroundings)
    (s : System) (id user : String) (call : Call) :
    AllOrNothing id user call (w.run (desk.answer id user call).run s) := by
  obtain ⟨hl, hfaithful⟩ := w.leads_run (desk.answer id user call).run s
  cases hcall : call.isReadOnly with
  | true =>
      have hreads : ∀ step ∈ (w.run (desk.answer id user call).run s).2.map Occurrence.step,
          step.query.IsReading :=
        (onlyReads_answer hcall).asks_of_mem hl fun t _ => t.loads_true
      have hleaves := leavesAll_of_isIdle hfaithful fun step hm =>
        Taken.isIdle_of_isReading (hreads step hm)
      exact ⟨fun _ => hleaves, fun _ => hleaves, fun _ _ hmutates => by
        rw [hcall] at hmutates
        cases hmutates⟩
  | false =>
      rcases (mutates_answer hcall).leads_cases htable hl with
        ⟨hidle, hfailed⟩ | ⟨reply, op, arguments, t, hreply, -, -, hsettles⟩
      · have hleaves := leavesAll_of_isIdle hfaithful hidle
        exact ⟨fun _ => hleaves, fun _ => hleaves, fun reply hreply =>
          absurd hreply (hfailed reply)⟩
      · refine ⟨fun hfailed => absurd hreply (hfailed reply), fun hreads => ?_, fun _ _ _ =>
          hsettles.carriedOut htable hfaithful⟩
        rw [hcall] at hreads
        cases hreads

/-- A version is taken of a document while the store refuses what it can: the first
commit meets a conflict and the second load fails, or the second commit goes
through. -/
theorem answer_all_or_nothing_version :
    let v : Variant := .make "v" .unpublished .null "ann" .epoch
    let s : System := { store := Keyed.ofList [("a", ⟨.single "a" none v, 1⟩)] }
    let refuse (fails : Bool) : List Occurrence → (query : Query) →
        Option { answer : query.Answer // query.Refuses answer }
      | trace, .commit _ => if trace.length < 5 then some ⟨.ok (.conflict "a"), trivial⟩ else none
      | trace, .load _ =>
          if fails ∧ 2 < trace.length then some ⟨.error (.reported .contentStore "offline"), trivial⟩
          else none
      | _, _ => none
    let w (fails : Bool) : Surroundings := ⟨fun _ _ => "n", fun _ s => s, refuse fails⟩
    let r (fails : Bool) := (w fails).run (Desk.answer {} "a" "bob" .version).run s
    (((r false).1.map Except.isOk = some true ∧ (r false).2.length = 10) ∧
        (r true).1.map Except.isOk = some false ∧ (r true).2.length = 6) ∧
      AllOrNothing "a" "bob" .version (r false) ∧ AllOrNothing "a" "bob" .version (r true) := by
  intro v s refuse w r
  refine ⟨by decide +kernel, ?_, ?_⟩
  · exact answer_all_or_nothing {} rfl (w false) s "a" "bob" .version
  · exact answer_all_or_nothing {} rfl (w true) s "a" "bob" .version

end Desk

end Editorial
