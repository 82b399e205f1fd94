import Editorial.Proofs.Desk.Job
import Editorial.Proofs.Pipeline.Careful
import Editorial.Proofs.Pipeline.Outcome

/-!
# Attempts

An attempt of a desk with the standard table loads the record, fires the
operation and commits what that leaves. All that an attempt has decided by the
time it commits is one `Effect` on the record it loaded, so an attempt is
described by what it prepares: the steps before the commit, the changes and the
transaction. A lost race only puts earlier attempts in front.

## Main results

* `reaches_execute_commit` — a commit of an operation was prepared by its last
  attempt.
* `leads_execute` — an operation that is prepared and then committed has
  succeeded.
-/

namespace Editorial

namespace Desk

/-- What an attempt comes to before it commits: the steps taken, the changes and
the transaction. -/
inductive Prepares (desk : Desk) (id user : String) (op : Operation) (arguments : Arguments) :
    List Taken → List Change → Transaction → Prop
  | loaded {stored : Stored} {path : List Taken} {r : Record} {t : Transaction}
      {changes : List Change}
      (hallows : (Hints.ofHandle ⟨stored.record, stored.revision, user⟩).allows op
        arguments.request = true)
      (heffect : Effect ⟨arguments, desk.settings.folderCategory⟩
        ⟨stored.record, stored.revision, user⟩ op path r t)
      (hchanges : Desk.changes id ⟨⟨r, stored.revision, user⟩, t⟩ = .ok changes) :
      Prepares desk id user op arguments (.load id (some stored) :: path) changes t

/-- The commit of an attempt and what follows if it succeeds. -/
def settling (id user : String) (op : Operation) (changes : List Change) (t : Transaction)
    (now : Instant) : List Taken :=
  [.commit changes .committed, .now now, ⟨.log (notice id user op t now), ()⟩]

variable {desk : Desk} {id user : String} {op : Operation} {arguments : Arguments}

/-! ## Reading -/

theorem run_read (desk : Desk) (id user : String) (op : Operation) (arguments : Arguments) :
    (desk.read id user op arguments).run = .ask (.load id) fun
      | .ok (some stored) =>
          ((desk.table.fire ⟨arguments, desk.settings.folderCategory⟩ op).on
            ⟨⟨stored.record, stored.revision, user⟩, {}⟩).bind fun fired =>
              .done (fired.1.map fun _ => fired.2)
      | .ok none => .done (.error (.handleMissing id))
      | .error failure => .done (.error failure) := by
  unfold read load
  rw [bind_assoc, Flow.run_bind]
  show Process.ask (.load id) _ = _
  congr 1
  funext answer
  rcases answer with failure | _ | stored <;> rfl

theorem meets_read (desk : Desk) (id user : String) (op : Operation) (arguments : Arguments) :
    (desk.read id user op arguments).run.Meets Query.IsReading (Taken.Loads fun _ => True)
      fun _ => True := by
  rw [run_read]
  refine ⟨trivial, fun answer _ => ?_⟩
  rcases answer with failure | _ | stored
  · trivial
  · trivial
  · have hmeets := Table.meets_fire Record.stageable_true desk.table
      ⟨arguments, desk.settings.folderCategory⟩ op ⟨stored.record, stored.revision, user⟩
    rw [Process.meets_bind]
    refine hmeets.mono fun r? _ => ?_
    cases r? <;> trivial

/-- An operation that was carried out has loaded its record and fired. -/
theorem leads_read_ok_iff {path : List Taken} {w : Work} :
    (desk.read id user op arguments).run.Leads path (some (.ok w)) ↔
      ∃ stored path', path = .load id (some stored) :: path' ∧
        ((desk.table.fire ⟨arguments, desk.settings.folderCategory⟩ op).on
          ⟨⟨stored.record, stored.revision, user⟩, {}⟩).Leads path' (some (.ok (), w)) := by
  rw [run_read, Process.leads_ask]
  constructor
  · rintro ⟨answer, path', rfl, hl⟩
    rcases answer with failure | _ | stored
    · cases ((Process.leads_done _ _ _).1 hl).2
    · cases ((Process.leads_done _ _ _).1 hl).2
    · obtain ⟨fired?, hfired, hend⟩ := (Process.leads_map _ _ _ _).1 hl
      rcases fired? with _ | ⟨failure | _, w'⟩
      · cases hend
      · cases hend
      · cases hend
        exact ⟨stored, path', rfl, hfired⟩
  · rintro ⟨stored, path', rfl, hfired⟩
    exact ⟨.ok (some stored), path', rfl, (Process.leads_map _ _ _ _).2 ⟨_, hfired, rfl⟩⟩

theorem leads_read_iff (htable : desk.table = .standard) {path : List Taken} {w : Work} :
    (desk.read id user op arguments).run.Leads path (some (.ok w)) ↔
      ∃ stored path' r t, path = .load id (some stored) :: path' ∧
        w = ⟨⟨r, stored.revision, user⟩, t⟩ ∧
        (Hints.ofHandle ⟨stored.record, stored.revision, user⟩).allows op
          arguments.request = true ∧
        Effect ⟨arguments, desk.settings.folderCategory⟩
          ⟨stored.record, stored.revision, user⟩ op path' r t := by
  rw [leads_read_ok_iff, htable]
  constructor
  · rintro ⟨stored, path', rfl, hfired⟩
    obtain ⟨hallows, r, t, rfl, heffect⟩ := Table.leads_fire_iff.1 hfired
    exact ⟨stored, path', r, t, rfl, rfl, hallows, heffect⟩
  · rintro ⟨stored, path', r, t, rfl, rfl, hallows, heffect⟩
    exact ⟨stored, path', rfl, Table.leads_fire_iff.2 ⟨hallows, r, t, rfl, heffect⟩⟩

/-! ## One attempt -/

/-- The part of an attempt before the commit. -/
def prepare (desk : Desk) (id user : String) (op : Operation) (arguments : Arguments) :
    Flow (List Change × Transaction) := do
  let w ← desk.read id user op arguments
  return (← changes id w, w.transaction)

/-- The commit of an attempt and what follows. -/
def settle (id user : String) (op : Operation) (prepared : List Change × Transaction) :
    Flow (Attempt Transaction) := do
  match ← Flow.commit prepared.1 with
  | .conflict _ => return .conflict
  | .committed =>
      Process.log (notice id user op prepared.2 (← Process.now))
      return .committed prepared.2

theorem attempt_eq (desk : Desk) (id user : String) (op : Operation) (arguments : Arguments) :
    desk.attempt id user op arguments =
      desk.prepare id user op arguments >>= settle id user op := by
  unfold attempt prepare read
  rw [bind_assoc, bind_assoc]
  congr 1
  funext h
  congr 1
  funext w
  rw [bind_assoc]
  rfl

theorem run_prepare (desk : Desk) (id user : String) (op : Operation) (arguments : Arguments) :
    (desk.prepare id user op arguments).run =
      (desk.read id user op arguments).run.bind fun w? =>
        .done (w?.bind fun w => (changes id w).map fun changes => (changes, w.transaction)) := by
  unfold prepare
  rw [Flow.run_bind]
  congr 1
  funext w?
  cases w? with
  | error failure => rfl
  | ok w =>
      show ExceptT.run (do
        let changes ← liftM (changes id w)
        pure (changes, w.transaction)) =
          Process.done ((changes id w).map fun changes => (changes, w.transaction))
      cases changes id w <;> rfl

/-- Preparing a commit only reads. -/
theorem meets_prepare (desk : Desk) (id user : String) (op : Operation) (arguments : Arguments) :
    (desk.prepare id user op arguments).run.Meets Query.IsReading (Taken.Loads fun _ => True)
      fun _ => True := by
  rw [run_prepare, Process.meets_bind]
  refine (meets_read desk id user op arguments).mono fun w? _ => ?_
  cases w? <;> trivial

/-- What an attempt prepares is what its operation left. -/
theorem leads_prepare_ok_iff {path : List Taken} {changes : List Change} {t : Transaction} :
    (desk.prepare id user op arguments).run.Leads path (some (.ok (changes, t))) ↔
      ∃ w, (desk.read id user op arguments).run.Leads path (some (.ok w)) ∧
        Desk.changes id w = .ok changes ∧ w.transaction = t := by
  rw [run_prepare, Process.leads_map]
  constructor
  · rintro ⟨_ | failure | w, hl, hend⟩
    · cases hend
    · cases hend
    · have hchanges := Option.some.inj hend.symm
      cases hc : Desk.changes id w with
      | error failure =>
          simp only [Except.bind, hc, Except.map] at hchanges
          cases hchanges
      | ok changes' =>
          simp only [Except.bind, hc, Except.map] at hchanges
          cases hchanges
          exact ⟨w, hl, hc, rfl⟩
  · rintro ⟨w, hl, hc, rfl⟩
    refine ⟨_, hl, ?_⟩
    simp only [Option.map_some, Except.bind, hc, Except.map]

/-- With the standard table, what an attempt prepares is an effect. -/
theorem leads_prepare_iff (htable : desk.table = .standard) {path : List Taken}
    {changes : List Change} {t : Transaction} :
    (desk.prepare id user op arguments).run.Leads path (some (.ok (changes, t))) ↔
      Prepares desk id user op arguments path changes t := by
  rw [leads_prepare_ok_iff]
  constructor
  · rintro ⟨w, hl, hc, rfl⟩
    obtain ⟨stored, path', r, t, rfl, rfl, hallows, heffect⟩ := (leads_read_iff htable).1 hl
    exact .loaded hallows heffect hc
  · intro hp
    cases hp with
    | @loaded stored path' r _ _ hallows heffect hchanges =>
        exact ⟨_, (leads_read_iff htable).2 ⟨stored, path', r, t, rfl, rfl, hallows, heffect⟩,
          hchanges, rfl⟩

theorem Prepares.isReading (htable : desk.table = .standard) {path : List Taken}
    {changes : List Change} {t : Transaction}
    (hp : Prepares desk id user op arguments path changes t) :
    ∀ step ∈ path, step.query.IsReading :=
  (meets_prepare desk id user op arguments).asks_of_mem ((leads_prepare_iff htable).2 hp)
    fun step _ => step.loads_true

theorem run_settle (id user : String) (op : Operation) (changes : List Change)
    (t : Transaction) :
    (settle id user op (changes, t)).run = .ask (.commit changes) fun
      | .ok .committed => .ask .now fun now => .ask (.log (notice id user op t now)) fun _ =>
          .done (.ok (.committed t))
      | .ok (.conflict _) => .done (.ok .conflict)
      | .error failure => .done (.error failure) := by
  unfold settle
  rw [Flow.run_bind]
  show Process.ask (.commit changes) _ = _
  congr 1
  funext answer
  rcases answer with failure | _ | id <;> rfl

/-- What an attempt commits it has prepared. -/
theorem reaches_attempt_commit (htable : desk.table = .standard) {path : List Taken}
    {changes : List Change}
    {next : Except Failure Verdict → Process (Except Failure (Attempt Transaction))}
    (hr : (desk.attempt id user op arguments).run.Reaches path (.ask (.commit changes) next)) :
    ∃ t, Prepares desk id user op arguments path changes t := by
  rw [attempt_eq, Flow.run_bind, Process.reaches_bind_ask] at hr
  rcases hr with ⟨next', hr', -⟩ | ⟨first, second, r, rfl, hl, hr'⟩
  · have hreads := (meets_prepare desk id user op arguments).asks_of_reaches hr'
      fun t _ => t.loads_true
    exact False.elim hreads
  · rcases r with failure | ⟨changes', t⟩
    · cases ((Process.reaches_done _ _ _).1 hr').2
    · change Process.Reaches (settle id user op (changes', t)).run second _ at hr'
      rw [run_settle, Process.reaches_ask] at hr'
      rcases hr' with ⟨rfl, he⟩ | ⟨answer, second', rfl, hr''⟩
      · cases he
        rw [List.append_nil]
        exact ⟨t, (leads_prepare_iff htable).1 hl⟩
      · rcases answer with failure | _ | id'
        · cases ((Process.reaches_done _ _ _).1 hr'').2
        · rcases (Process.reaches_ask _ _ _ _).1 hr'' with ⟨-, he⟩ | ⟨now, path', -, hlog⟩
          · cases he
          · rcases (Process.reaches_ask _ _ _ _).1 hlog with ⟨-, he⟩ | ⟨u, path'', -, hend⟩
            · cases he
            · cases ((Process.reaches_done _ _ _).1 hend).2
        · cases ((Process.reaches_done _ _ _).1 hr'').2

/-- What is prepared can be committed. -/
theorem leads_attempt (htable : desk.table = .standard) {path : List Taken}
    {changes : List Change} {t : Transaction}
    (hp : Prepares desk id user op arguments path changes t) (now : Instant) :
    (desk.attempt id user op arguments).run.Leads (path ++ settling id user op changes t now)
      (some (.ok (.committed t))) := by
  rw [attempt_eq, Flow.run_bind, Process.leads_bind_some]
  refine ⟨path, _, _, rfl, (leads_prepare_iff htable).2 hp, ?_⟩
  show Process.Leads (settle id user op (changes, t)).run _ _
  rw [run_settle]
  simp [settling]

/-- An attempt begins with a load. -/
theorem exists_load_of_leads_attempt {path : List Taken}
    {result : Option (Except Failure (Attempt Transaction))}
    (hl : (desk.attempt id user op arguments).run.Leads path result) :
    ∃ answer rest, path = ⟨.load id, answer⟩ :: rest := by
  rw [attempt_eq, Flow.run_bind, run_prepare, run_read, Process.bind_ask, Process.bind_ask,
    Process.leads_ask] at hl
  obtain ⟨answer, rest, rfl, -⟩ := hl
  exact ⟨answer, rest, rfl⟩

/-! ## Lost attempts -/

/-- The steps of attempts that met a conflict, each with a pause after it. -/
def IsLost (id : String) (path : List Taken) : Prop :=
  path = [] ∨ ∃ answer rest milliseconds,
    path = ⟨.load id, answer⟩ :: rest ++ [⟨.pause milliseconds, ()⟩]

theorem IsLost.append {path path' : List Taken} {answer : Except Failure (Option Stored)}
    (h : IsLost id path') (milliseconds : Nat) :
    IsLost id (⟨.load id, answer⟩ :: path ++ ⟨.pause milliseconds, ()⟩ :: path') := by
  rcases h with rfl | ⟨answer', rest, milliseconds', rfl⟩
  · exact Or.inr ⟨answer, path, milliseconds, rfl⟩
  · refine Or.inr ⟨answer, path ++ ⟨.pause milliseconds, ()⟩ :: ⟨.load id, answer'⟩ :: rest,
      milliseconds', ?_⟩
    simp

/-! ## Attempts in turn -/

section

variable (exhausted : Failure) (milliseconds : Nat)

theorem run_runFrom_zero (attempt : Nat → Flow (Attempt Transaction)) (n : Nat) :
    ExceptT.run (Retry.runFrom (Process.pause milliseconds) attempt exhausted 0 n) =
      (attempt n).run.bind fun
        | .ok (.committed t) => .done (.ok t)
        | .ok .conflict => .done (.error exhausted)
        | .error failure => .done (.error failure) := by
  rw [Retry.runFrom, Flow.run_bind]
  congr 1
  funext r
  rcases r with failure | t | _ <;> rfl

theorem run_runFrom_succ (attempt : Nat → Flow (Attempt Transaction)) (left n : Nat) :
    ExceptT.run (Retry.runFrom (Process.pause milliseconds) attempt exhausted (left + 1) n) =
      (attempt n).run.bind fun
        | .ok (.committed t) => .done (.ok t)
        | .ok .conflict => .ask (.pause milliseconds) fun _ => ExceptT.run
            (Retry.runFrom (Process.pause milliseconds) attempt exhausted left (n + 1))
        | .error failure => .done (.error failure) := by
  rw [Retry.runFrom, Flow.run_bind]
  congr 1
  funext r
  rcases r with failure | t | _ <;> rfl

variable {exhausted milliseconds}

/-- A commit of an operation was prepared by the last attempt. -/
theorem reaches_runFrom_commit (htable : desk.table = .standard) {left n : Nat}
    {path : List Taken} {changes : List Change}
    {next : Except Failure Verdict → Process (Except Failure Transaction)}
    (hr : Process.Reaches (ExceptT.run (Retry.runFrom (Process.pause milliseconds)
      (fun _ => desk.attempt id user op arguments) exhausted left n)) path
      (.ask (.commit changes) next)) :
    ∃ lost last t, path = lost ++ last ∧ IsLost id lost ∧
      Prepares desk id user op arguments last changes t := by
  induction left generalizing n path with
  | zero =>
      rw [run_runFrom_zero, Process.reaches_bind_ask] at hr
      rcases hr with ⟨next', hr', -⟩ | ⟨first, second, r, -, -, hr'⟩
      · obtain ⟨t, hp⟩ := reaches_attempt_commit htable hr'
        exact ⟨[], path, t, rfl, Or.inl rfl, hp⟩
      · rcases r with failure | t | _ <;> cases ((Process.reaches_done _ _ _).1 hr').2
  | succ left ih =>
      rw [run_runFrom_succ, Process.reaches_bind_ask] at hr
      rcases hr with ⟨next', hr', -⟩ | ⟨first, second, r, rfl, hl, hr'⟩
      · obtain ⟨t, hp⟩ := reaches_attempt_commit htable hr'
        exact ⟨[], path, t, rfl, Or.inl rfl, hp⟩
      · rcases r with failure | t | _
        · cases ((Process.reaches_done _ _ _).1 hr').2
        · cases ((Process.reaches_done _ _ _).1 hr').2
        · obtain ⟨answer, rest, rfl⟩ := exists_load_of_leads_attempt hl
          rcases (Process.reaches_ask _ _ _ _).1 hr' with ⟨-, he⟩ | ⟨u, second', rfl, hr''⟩
          · cases he
          · obtain ⟨lost, last, t, rfl, hlost, hp⟩ := ih hr''
            refine ⟨⟨.load id, answer⟩ :: rest ++ ⟨.pause milliseconds, ()⟩ :: lost, last, t, ?_,
              hlost.append milliseconds, hp⟩
            simp

/-- Where the first attempt succeeds there is no other. -/
theorem leads_runFrom (attempt : Nat → Flow (Attempt Transaction)) {left n : Nat}
    {path : List Taken} {t : Transaction}
    (hl : (attempt n).run.Leads path (some (.ok (.committed t)))) :
    Process.Leads (ExceptT.run (Retry.runFrom (Process.pause milliseconds) attempt exhausted
      left n)) path (some (.ok t)) := by
  have hend : path = path ++ [] := (List.append_nil path).symm
  cases left with
  | zero =>
      rw [run_runFrom_zero, Process.leads_bind_some]
      exact ⟨path, [], _, hend, hl, by simp⟩
  | succ left =>
      rw [run_runFrom_succ, Process.leads_bind_some]
      exact ⟨path, [], _, hend, hl, by simp⟩

end

/-! ## Operations -/

theorem reaches_execute_commit (htable : desk.table = .standard) (hop : op.isReadOnly = false)
    {path : List Taken} {changes : List Change}
    {next : Except Failure Verdict → Process (Except Failure Transaction)}
    (hr : (desk.execute id user op arguments).run.Reaches path (.ask (.commit changes) next)) :
    ∃ lost last t, path = lost ++ last ∧ IsLost id lost ∧
      Prepares desk id user op arguments last changes t := by
  unfold execute at hr
  rw [hop, if_neg Bool.false_ne_true] at hr
  exact reaches_runFrom_commit htable hr

theorem leads_execute (htable : desk.table = .standard) (hop : op.isReadOnly = false)
    {path : List Taken} {changes : List Change} {t : Transaction}
    (hp : Prepares desk id user op arguments path changes t) (now : Instant) :
    (desk.execute id user op arguments).run.Leads (path ++ settling id user op changes t now)
      (some (.ok t)) := by
  unfold execute
  rw [hop, if_neg Bool.false_ne_true]
  exact leads_runFrom _ (leads_attempt htable hp now)

end Desk

end Editorial
