import Editorial.Proofs.Desk.Settling

/-!
# What a desk logs

An attempt that has committed still has two steps to take, a look at the clock and the
event, and others may act before each of them. So whether every commit is logged once
cannot be read off a finished call alone; it has to be known of every point on the way.

A process that *logs its commits* asks for nothing to be logged until a commit goes
through, and after that it does what is left to do and nothing else. What it logs was
settled when it asked for the commit. The discipline goes through sequences, so it is
proved for one attempt and follows for the loop, for calls and for jobs, whatever the
table: an attempt that met a conflict has logged nothing, and there is none after one
that went through.

## Main results

* `Process.Logs.bind` — a sequence logs its commits if its parts do.
* `logs_process` — every job logs its commits.
* `standing_of_reaches` — where a process stands that has taken some steps.
-/

namespace Editorial

namespace Process

variable {α β : Type}

/-- What a commit that went through is followed by: the end, or a look at the clock, the
event and the end. -/
inductive Follows (made : Option (Instant → Notice) → α → Prop) : Process α → Prop
  | silent {a : α} (h : made none a) : Follows made (done a)
  | logged {notice : Instant → Notice} {a : α} (h : made (some notice) a) :
      Follows made (ask .now fun now => ask (.log (notice now)) fun _ => done a)

/-- The process, which has taken the steps `past`, logs its commits: when one goes
through, what it logs of it and what it ends with is as `made` says. -/
def Logs (made : List Taken → List Change → Option (Instant → Notice) → α → Prop) :
    List Taken → Process α → Prop
  | _, done _ => True
  | _, broken => True
  | past, ask query next =>
      (∀ notice, query ≠ .log notice) ∧ ∀ answer,
        ((⟨query, answer⟩ : Taken).IsIdle → Logs made (past ++ [⟨query, answer⟩]) (next answer)) ∧
        ∀ changes, (⟨query, answer⟩ : Taken) = .commit changes .committed →
          Follows (made past changes) (next answer)

section

variable {made : List Taken → List Change → Option (Instant → Notice) → α → Prop}
  {made' : List Taken → List Change → Option (Instant → Notice) → β → Prop}
  {past : List Taken}

/-- A step that commits and logs nothing is only noted. -/
theorem logs_ask {query : Query} {next : query.Answer → Process α}
    (hcommit : ∀ changes, query ≠ .commit changes) (hlog : ∀ notice, query ≠ .log notice)
    (hnext : ∀ answer, (next answer).Logs made (past ++ [⟨query, answer⟩])) :
    (ask query next).Logs made past :=
  ⟨hlog, fun answer => ⟨fun _ => hnext answer, fun changes he =>
    absurd (congrArg Taken.query he) (hcommit changes)⟩⟩

/-- A process that only reads has nothing to log. -/
theorem logs_of_isReading {p : Process α}
    (h : p.Meets Query.IsReading (Taken.Loads fun _ => True) fun _ => True) :
    p.Logs made past := by
  induction p generalizing past with
  | done a => trivial
  | broken => trivial
  | ask query next ih =>
      refine logs_ask (fun changes he => ?_) (fun notice he => ?_) fun answer =>
        ih answer (h.2 answer (Taken.loads_true _))
      · subst he
        exact h.1
      · subst he
        exact h.1

/-- A sequence logs its commits if the first part does, what follows it does unless the
first part has committed, and nothing but an end follows if it has. -/
theorem Logs.bind {p : Process α} {f : α → Process β} (hp : p.Logs made past)
    (hf : ∀ path a, p.Leads path (some a) → (∀ step ∈ path, step.IsIdle) →
      (f a).Logs made' (past ++ path))
    (hmade : ∀ path changes notice? a, made path changes notice? a →
      ∃ b, f a = .done b ∧ made' path changes notice? b) :
    (p.bind f).Logs made' past := by
  induction p generalizing past with
  | done a =>
      have hend := hf [] a ((leads_done _ _ _).2 ⟨rfl, rfl⟩) (List.forall_mem_nil _)
      rwa [List.append_nil] at hend
  | broken => trivial
  | ask query next ih =>
      refine ⟨hp.1, fun answer => ⟨fun hidle => ?_, fun changes he => ?_⟩⟩
      · refine ih answer ((hp.2 answer).1 hidle) fun path a hl hpath => ?_
        rw [List.append_assoc]
        exact hf _ a ((leads_ask_cons _ _ _ _ _).2 hl) (List.forall_mem_cons.2 ⟨hidle, hpath⟩)
      · have hfollows := (hp.2 answer).2 changes he
        show Follows _ ((next answer).bind f)
        generalize next answer = rest at hfollows
        cases hfollows with
        | silent h =>
            obtain ⟨b, hend, h'⟩ := hmade _ _ _ _ h
            rw [bind_done, hend]
            exact .silent h'
        | logged h =>
            obtain ⟨b, hend, h'⟩ := hmade _ _ _ _ h
            simp only [bind_ask, bind_done, hend]
            exact .logged h'

/-! ## Where a process stands -/

/-- Where a process that logs its commits stands: it has committed nothing, or it is
through with a commit, or it has one or two steps left to take. -/
inductive Standing (made : List Taken → List Change → Option (Instant → Notice) → α → Prop) :
    List Taken → Process α → Prop
  | before {path : List Taken} {p : Process α} (hidle : ∀ step ∈ path, step.IsIdle)
      (hlogs : p.Logs made path) : Standing made path p
  | silent {path : List Taken} {changes : List Change} {a : α}
      (hidle : ∀ step ∈ path, step.IsIdle) (hmade : made path changes none a) :
      Standing made (path ++ [.commit changes .committed]) (done a)
  | committed {path : List Taken} {changes : List Change} {notice : Instant → Notice} {a : α}
      (hidle : ∀ step ∈ path, step.IsIdle) (hmade : made path changes (some notice) a) :
      Standing made (path ++ [.commit changes .committed])
        (ask .now fun now => ask (.log (notice now)) fun _ => done a)
  | timed {path : List Taken} {changes : List Change} {notice : Instant → Notice} {a : α}
      {now : Instant} (hidle : ∀ step ∈ path, step.IsIdle)
      (hmade : made path changes (some notice) a) :
      Standing made (path ++ [.commit changes .committed, .now now])
        (ask (.log (notice now)) fun _ => done a)
  | logged {path : List Taken} {changes : List Change} {notice : Instant → Notice} {a : α}
      {now : Instant} (hidle : ∀ step ∈ path, step.IsIdle)
      (hmade : made path changes (some notice) a) :
      Standing made
        (path ++ [.commit changes .committed, .now now, ⟨.log (notice now), ()⟩]) (done a)

/-- Where a process stands after one more step. -/
theorem Standing.step {path : List Taken} {query : Query} {next : query.Answer → Process α}
    (h : Standing made path (ask query next)) (answer : query.Answer) :
    Standing made (path ++ [⟨query, answer⟩]) (next answer) := by
  generalize hp : ask query next = p at h
  cases h with
  | before hidle hlogs =>
      subst hp
      by_cases hanswer : (⟨query, answer⟩ : Taken).IsIdle
      · refine .before (List.forall_mem_append.2 ⟨hidle, fun step hm => ?_⟩)
          ((hlogs.2 answer).1 hanswer)
        rw [List.mem_singleton.1 hm]
        exact hanswer
      · cases query with
        | commit changes =>
            obtain rfl : answer = .ok .committed := by
              by_contra hne
              exact hanswer hne
            have hfollows := (hlogs.2 (.ok .committed)).2 changes rfl
            generalize next (.ok .committed) = rest at hfollows
            cases hfollows with
            | silent h => exact .silent hidle h
            | logged h => exact .committed hidle h
        | log notice => exact absurd rfl (hlogs.1 notice)
        | now | fresh kind | load id | find location | folder category container
        | pause milliseconds => exact absurd trivial hanswer
  | silent hidle hmade => cases hp
  | committed hidle hmade =>
      cases hp
      rw [List.append_assoc]
      exact .timed hidle hmade
  | timed hidle hmade =>
      cases hp
      rw [List.append_assoc]
      exact .logged hidle hmade
  | logged hidle hmade => cases hp

/-- Where a process stands that has taken some steps. -/
theorem standing_of_reaches {p rest : Process α} {path : List Taken} (hp : p.Logs made [])
    (hr : p.Reaches path rest) : Standing made path rest := by
  have hfrom : ∀ {past path : List Taken} {p : Process α}, Standing made past p →
      p.Reaches path rest → Standing made (past ++ path) rest := by
    intro past path
    induction path generalizing past with
    | nil =>
        intro p hstanding hr
        rw [reaches_nil] at hr
        rw [hr, List.append_nil]
        exact hstanding
    | cons step path ih =>
        rintro p hstanding ⟨next, rfl, hr⟩
        have hnext := ih (hstanding.step step.answer) hr
        rwa [List.append_assoc] at hnext
  exact hfrom (.before (List.forall_mem_nil _) hp) hr

end

end Process

namespace Desk

open Process

variable {desk : Desk} {id user : String} {op : Operation} {arguments : Arguments}

/-! ## Attempts -/

/-- The last of the steps `past` prepared the changes, and the notice is of the
transaction that was prepared with them. -/
def Prepared (desk : Desk) (id user : String) (op : Operation) (arguments : Arguments)
    (past : List Taken) (changes : List Change) (notice? : Option (Instant → Notice))
    (t : Transaction) : Prop :=
  ∃ earlier last, past = earlier ++ last ∧
    (desk.prepare id user op arguments).run.Leads last (some (.ok (changes, t))) ∧
    notice? = some (notice id user op t)

theorem logs_attempt (desk : Desk) (id user : String) (op : Operation) (arguments : Arguments)
    (past : List Taken) :
    (desk.attempt id user op arguments).run.Logs (fun past changes notice? attempt? =>
      ∃ t, attempt? = .ok (.committed t) ∧
        desk.Prepared id user op arguments past changes notice? t) past := by
  rw [attempt_eq, Flow.run_bind]
  have hreads : (desk.prepare id user op arguments).run.Logs (fun _ _ _ _ => False) past :=
    logs_of_isReading (meets_prepare desk id user op arguments)
  refine hreads.bind (fun path prepared? hl _ => ?_) fun _ _ _ _ h => h.elim
  rcases prepared? with failure | ⟨changes, t⟩
  · trivial
  · show Logs _ _ (settle id user op (changes, t)).run
    rw [run_settle]
    refine ⟨fun _ => nofun, fun answer => ⟨fun hidle => ?_, fun changes' he => ?_⟩⟩
    · rcases answer with failure | _ | other
      · trivial
      · exact absurd rfl hidle
      · trivial
    · cases he
      exact .logged ⟨t, rfl, past, path, rfl, hl, rfl⟩

/-- What a run of attempts is to log. -/
def PreparedRun (desk : Desk) (id user : String) (op : Operation) (arguments : Arguments)
    (past : List Taken) (changes : List Change) (notice? : Option (Instant → Notice))
    (result : Except Failure Transaction) : Prop :=
  ∃ t, result = .ok t ∧ desk.Prepared id user op arguments past changes notice? t

/-- An attempt with what follows a conflict. -/
theorem logs_attempt_bind (goOn : Process (Except Failure Transaction))
    (hgoOn : ∀ past, goOn.Logs (desk.PreparedRun id user op arguments) past) (past : List Taken) :
    ((desk.attempt id user op arguments).run.bind fun
      | .ok (.committed t) => .done (.ok t)
      | .ok .conflict => goOn
      | .error failure => .done (.error failure)).Logs
        (desk.PreparedRun id user op arguments) past := by
  refine (logs_attempt desk id user op arguments past).bind (fun path attempt? _ _ => ?_) ?_
  · rcases attempt? with failure | t | _
    · trivial
    · trivial
    · exact hgoOn _
  · rintro path changes notice? attempt? ⟨t, rfl, hprepared⟩
    exact ⟨_, rfl, t, rfl, hprepared⟩

theorem logs_runFrom {exhausted : Failure} {milliseconds left n : Nat} (past : List Taken) :
    Logs (desk.PreparedRun id user op arguments) past
      (ExceptT.run (Retry.runFrom (Process.pause milliseconds)
        (fun _ => desk.attempt id user op arguments) exhausted left n)) := by
  induction left generalizing n past with
  | zero =>
      rw [run_runFrom_zero]
      exact logs_attempt_bind (.done (.error exhausted)) (fun _ => trivial) past
  | succ left ih =>
      rw [run_runFrom_succ]
      refine logs_attempt_bind _ (fun past' => ?_) past
      exact logs_ask (fun _ => nofun) (fun _ => nofun) fun u =>
        ih (past' ++ [⟨.pause milliseconds, u⟩])

theorem logs_execute (hop : op.isReadOnly = false) (past : List Taken) :
    (desk.execute id user op arguments).run.Logs (desk.PreparedRun id user op arguments) past := by
  unfold execute
  rw [hop, if_neg Bool.false_ne_true]
  exact logs_runFrom past

/-! ## Calls -/

/-- What a call is to log: what its operation prepared last, if that is committed. -/
def PreparedCall (desk : Desk) (id user : String) (asks : Operation → Arguments → Prop)
    (past : List Taken) (changes : List Change) (notice? : Option (Instant → Notice))
    (reply? : Except Failure Reply) : Prop :=
  ∃ op arguments t, asks op arguments ∧ op.isReadOnly = false ∧ Concludes id op t reply? ∧
    desk.Prepared id user op arguments past changes notice? t

theorem Mutates.logs {blank : Prop} {asks : Operation → Arguments → Prop} {f : Flow Reply}
    (h : Mutates desk id user blank asks f) (past : List Taken) :
    f.run.Logs (desk.PreparedCall id user asks) past := by
  induction h generalizing past with
  | @refused f fault hblank hrun =>
      rw [hrun]
      trivial
  | @now next hnext ih =>
      rw [Flow.run_bind]
      exact logs_ask (fun _ => nofun) (fun _ => nofun) fun t => ih t (past ++ [.now t])
  | @execute op arguments finish hop hasks hends =>
      rw [Flow.run_bind]
      refine (logs_execute hop past).bind (fun path t? _ _ => ?_) ?_
      · rcases t? with failure | t
        · trivial
        · obtain ⟨reply?, hend, -⟩ := hends t
          show Logs _ _ (finish t).run
          rw [hend]
          trivial
      · rintro path changes notice? t? ⟨t, rfl, hprepared⟩
        obtain ⟨reply?, hend, hconcludes⟩ := hends t
        exact ⟨reply?, hend, op, arguments, t, hasks, hop, hconcludes, hprepared⟩

theorem logs_answer (desk : Desk) (id user : String) (call : Call) (past : List Taken) :
    (desk.answer id user call).run.Logs (desk.PreparedCall id user call.Asks) past := by
  cases hcall : call.isReadOnly with
  | true => exact logs_of_isReading (onlyReads_answer hcall)
  | false => exact (mutates_answer hcall).logs past

/-! ## Jobs -/

/-- What a job is to log of a commit: nothing if it made a document, and otherwise what
the call is to log. -/
def PreparedJob (desk : Desk) : Job → List Taken → List Change → Option (Instant → Notice) →
    Except Failure Product → Prop
  | .call id user call, past, changes, notice?, product? =>
      ∃ reply?, product? = reply?.map .reply ∧
        desk.PreparedCall id user call.Asks past changes notice? reply?
  | .create _ _ _ _, _, _, notice?, _ => notice? = none

/-- Every job logs its commits. -/
theorem logs_process (desk : Desk) (job : Job) (past : List Taken) :
    (desk.process job).Logs (desk.PreparedJob job) past := by
  cases job with
  | call id user call =>
      rw [process_call]
      refine (logs_answer desk id user call past).bind (fun _ _ _ _ => trivial) ?_
      exact fun path changes notice? reply? h => ⟨_, rfl, reply?, rfl, h⟩
  | create location stage content user =>
      rw [process_create]
      rcases run_create_cases location stage content user with
        ⟨fault, hrun⟩ | ⟨-, refused, hrun⟩
      · rw [hrun]
        trivial
      · rw [hrun, run_createAt]
        refine logs_ask (fun _ => nofun) (fun _ => nofun) fun id => ?_
        refine logs_ask (fun _ => nofun) (fun _ => nofun) fun v => ?_
        refine logs_ask (fun _ => nofun) (fun _ => nofun) fun now => ?_
        refine ⟨fun _ => nofun, fun answer => ⟨fun hidle => ?_, fun changes he => ?_⟩⟩
        · rcases answer with failure | _ | other
          · trivial
          · exact absurd rfl hidle
          · trivial
        · cases he
          exact .silent rfl

end Desk

end Editorial
