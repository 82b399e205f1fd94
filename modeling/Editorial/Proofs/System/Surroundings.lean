import Editorial.Proofs.Desk.Settling
import Editorial.Proofs.Store.Commit
import Editorial.System

/-!
# Surroundings

A process that runs amid others, on a store and folders that may fail, is told
what its surroundings make of each step. Before a step is answered the others may
have changed the system in any way. Then the step may be refused: a load or a
lookup fails, or a commit fails or meets a conflict, and nothing is done. If it is
not refused, it is answered as a system in good order does. Surroundings may go by
all that has happened so far.

Each step is recorded with the system just before and just after it, which tells
what the process did from what the others did.

## Main results

* `leads_run` — what a run comes to is the end of the path it recorded, and what a
  step did is what it was answered.
* `AreQuiet.keepsAll` — without other writers everything stays until a commit goes through.
-/

namespace Editorial

/-- An answer to a step that was not carried out. -/
def Query.Refuses : (query : Query) → query.Answer → Prop
  | .load _, .error _ => True
  | .find _, .error _ => True
  | .folder _ _, .error _ => True
  | .commit _, .error _ => True
  | .commit _, .ok (.conflict _) => True
  | _, _ => False

/-- A step that was taken, with the system just before and just after it. -/
structure Occurrence where
  before : System
  step : Taken
  after : System

/-- What goes on around a process, by what has happened so far. -/
structure Surroundings where
  /-- The names to give out. -/
  mint : NameKind → Nat → String
  /-- What the others do before the next step. -/
  meanwhile : List Occurrence → System → System
  /-- The answer to the next step if it is refused. -/
  refuse? : List Occurrence → (query : Query) →
    Option { answer : query.Answer // query.Refuses answer }

/-! ## What a step did -/

/-- The store and the log are the same in both systems. -/
def System.KeepsAll (s s' : System) : Prop := s'.store = s.store ∧ s'.log = s.log

theorem System.KeepsAll.trans {s s' s'' : System} (h : s.KeepsAll s') (h' : s'.KeepsAll s'') :
    s.KeepsAll s'' :=
  ⟨h'.1.trans h.1, h'.2.trans h.2⟩

namespace Occurrence

/-- The step left the store and the log as they were. -/
def LeavesAll (o : Occurrence) : Prop :=
  o.after.store = o.before.store ∧ o.after.log = o.before.log

/-- The step made a set of changes to the store, all of them, and logged nothing. -/
def Commits (o : Occurrence) (changes : List Change) : Prop :=
  o.before.backend.commit o.before.store changes = (.committed, o.after.store) ∧
    o.after.store = o.before.store.applyAll changes ∧ o.after.log = o.before.log

/-- The step appended one event to the log and left the store as it was. -/
def Logs (o : Occurrence) (notice : Notice) : Prop :=
  o.after.store = o.before.store ∧
    o.after.log = { o.before.log with
      events := o.before.log.events ++ [⟨notice, o.before.log.nextSequence⟩] }

/-- What the step did to the system is what it was answered. -/
inductive IsFaithful (o : Occurrence) : Prop
  | idle (hidle : o.step.IsIdle) (h : o.LeavesAll)
  | committed {changes : List Change} (hstep : o.step = .commit changes .committed)
      (h : o.Commits changes)
  | logged {notice : Notice} (hstep : o.step = ⟨.log notice, ()⟩) (h : o.Logs notice)

theorem IsFaithful.leavesAll {o : Occurrence} (h : o.IsFaithful) (hidle : o.step.IsIdle) :
    o.LeavesAll := by
  cases h with
  | idle _ h => exact h
  | committed hstep =>
      rw [hstep] at hidle
      exact absurd rfl hidle
  | logged hstep =>
      rw [hstep] at hidle
      exact False.elim hidle

theorem IsFaithful.commits {o : Occurrence} (h : o.IsFaithful) {changes : List Change}
    (hstep : o.step = .commit changes .committed) : o.Commits changes := by
  cases h with
  | idle hidle =>
      rw [hstep] at hidle
      exact absurd rfl hidle
  | committed hstep' h =>
      rw [hstep'] at hstep
      cases hstep
      exact h
  | logged hstep' =>
      rw [hstep'] at hstep
      cases hstep

theorem IsFaithful.logs {o : Occurrence} (h : o.IsFaithful) {notice : Notice}
    (hstep : o.step = ⟨.log notice, ()⟩) : o.Logs notice := by
  cases h with
  | idle hidle =>
      rw [hstep] at hidle
      exact False.elim hidle
  | committed hstep' =>
      rw [hstep'] at hstep
      cases hstep
  | logged hstep' h =>
      rw [hstep'] at hstep
      cases hstep
      exact h

/-- What a system in good order answers. -/
theorem isFaithful_answer (mint : NameKind → Nat → String) (s : System) (query : Query) :
    IsFaithful ⟨s, ⟨query, (s.answer mint query).1⟩, (s.answer mint query).2⟩ := by
  cases query with
  | now | fresh _ | load _ | find _ | folder _ _ | pause _ => exact .idle trivial ⟨rfl, rfl⟩
  | log notice => exact .logged rfl ⟨rfl, rfl⟩
  | commit changes =>
      have hanswer : s.answer mint (.commit changes) =
          (.ok (s.backend.commit s.store changes).1,
            { s with store := (s.backend.commit s.store changes).2 }) := rfl
      rcases s.backend.commit_cases s.store changes with ⟨id, hc⟩ | hc
      · rw [hanswer, hc]
        exact .idle nofun ⟨rfl, rfl⟩
      · rw [hanswer, hc]
        exact .committed rfl ⟨hc, rfl, rfl⟩

/-- A step that is refused does nothing. -/
theorem isFaithful_of_refuses (s : System) {query : Query} {answer : query.Answer}
    (h : query.Refuses answer) : IsFaithful ⟨s, ⟨query, answer⟩, s⟩ := by
  refine .idle ?_ ⟨rfl, rfl⟩
  cases query with
  | now | fresh _ | load _ | find _ | folder _ _ | pause _ => trivial
  | log notice => exact h
  | commit changes =>
      rintro rfl
      exact h

end Occurrence

namespace Surroundings

/-- What has happened so far, and the system as the last step left it. -/
structure State where
  trace : List Occurrence
  system : System

/-- Answers a step and records it. -/
def answer (w : Surroundings) (state : State) (query : Query) : query.Answer × State :=
  let before := w.meanwhile state.trace state.system
  let (answer, after) :=
    match w.refuse? state.trace query with
    | some refused => (refused.1, before)
    | none => before.answer w.mint query
  (answer, ⟨state.trace ++ [⟨before, ⟨query, answer⟩, after⟩], after⟩)

/-- The next step as it is recorded. -/
def next (w : Surroundings) (state : State) (query : Query) : Occurrence :=
  ⟨w.meanwhile state.trace state.system, ⟨query, (w.answer state query).1⟩,
    (w.answer state query).2.system⟩

theorem answer_snd (w : Surroundings) (state : State) (query : Query) :
    (w.answer state query).2 =
      ⟨state.trace ++ [w.next state query], (w.next state query).after⟩ := by
  unfold next answer
  cases w.refuse? state.trace query <;> rfl

/-- What a step is answered, it did. -/
theorem isFaithful_next (w : Surroundings) (state : State) (query : Query) :
    (w.next state query).IsFaithful := by
  unfold next answer
  cases w.refuse? state.trace query with
  | some refused => exact Occurrence.isFaithful_of_refuses _ refused.2
  | none => exact Occurrence.isFaithful_answer w.mint _ query

/-- A step that is told is recorded as it was answered. -/
theorem step_next {w : Surroundings} {state : State} {t : Taken}
    (h : (w.answer state t.query).1 = t.answer) : (w.next state t.query).step = t := by
  rcases t with ⟨query, answer⟩
  exact congrArg (Taken.mk query) h

/-- The steps a process was told are recorded as they were answered. -/
theorem exists_trace_of_told (w : Surroundings) {path : List Taken} {state state' : State}
    (ht : Process.Told w.answer state path state') :
    ∃ trace, state'.trace = state.trace ++ trace ∧ trace.map Occurrence.step = path ∧
      ∀ o ∈ trace, o.IsFaithful := by
  induction path generalizing state with
  | nil =>
      cases ht
      exact ⟨[], (List.append_nil _).symm, rfl, List.forall_mem_nil _⟩
  | cons t path ih =>
      obtain ⟨hanswer, ht'⟩ := ht
      obtain ⟨trace, htrace, hpath, hall⟩ := ih ht'
      rw [answer_snd] at htrace
      refine ⟨w.next state t.query :: trace, ?_, ?_, ?_⟩
      · rw [htrace, List.append_assoc, List.singleton_append]
      · rw [List.map_cons, hpath, step_next hanswer]
      · exact List.forall_mem_cons.2 ⟨w.isFaithful_next state t.query, hall⟩

/-- Runs a process amid its surroundings: what comes of it, and its steps. -/
def run {α : Type} (w : Surroundings) (p : Process α) (s : System) :
    Option α × List Occurrence :=
  let r := p.run w.answer ⟨[], s⟩
  (r.1, r.2.trace)

/-- What a run comes to is the end of the path it took. -/
theorem leads_run {α : Type} (w : Surroundings) (p : Process α) (s : System) :
    p.Leads ((w.run p s).2.map Occurrence.step) (w.run p s).1 ∧
      ∀ o ∈ (w.run p s).2, o.IsFaithful := by
  obtain ⟨path, hl, ht⟩ := Process.exists_leads_run w.answer p ⟨[], s⟩
  obtain ⟨trace, htrace, hpath, hall⟩ := w.exists_trace_of_told ht
  have hrun : (w.run p s).2 = trace := htrace
  rw [hrun, hpath]
  exact ⟨hl, hall⟩

/-- The system as a process leaves it. -/
def after {α : Type} (w : Surroundings) (p : Process α) (s : System) : System :=
  (p.run w.answer ⟨[], s⟩).2.system

/-! ## Without other writers -/

/-- Whatever the others do, they leave the store and the log as they are. -/
def AreQuiet (w : Surroundings) : Prop := ∀ trace (s : System), s.KeepsAll (w.meanwhile trace s)

section

variable {w : Surroundings} {state state' : State}

/-- Steps that are idle leave everything as it is. -/
theorem AreQuiet.keepsAll (hw : w.AreQuiet) {path : List Taken} (hidle : ∀ t ∈ path, t.IsIdle)
    (ht : Process.Told w.answer state path state') : state.system.KeepsAll state'.system := by
  induction path generalizing state with
  | nil =>
      cases ht
      exact ⟨rfl, rfl⟩
  | cons t path ih =>
      obtain ⟨hanswer, hrest⟩ := ht
      obtain ⟨ht, hpath⟩ := List.forall_mem_cons.1 hidle
      have hleaves : (w.next state t.query).LeavesAll :=
        (w.isFaithful_next state t.query).leavesAll (by rwa [step_next hanswer])
      rw [answer_snd] at hrest
      exact ((hw state.trace state.system).trans hleaves).trans (ih hpath hrest)

/-- A commit that goes through makes its changes, all of them. -/
theorem AreQuiet.store_of_commit (hw : w.AreQuiet) {changes : List Change}
    (ht : Process.Told w.answer state [.commit changes .committed] state') :
    state'.system.store = state.system.store.applyAll changes ∧
      state'.system.log = state.system.log := by
  obtain ⟨hanswer, rfl⟩ := ht
  obtain ⟨hstore, hlog⟩ := hw state.trace state.system
  obtain ⟨-, hafter, hsame⟩ := (w.isFaithful_next state _).commits (step_next hanswer)
  exact ⟨hafter.trans (congrArg (Store.applyAll · changes) hstore), hsame.trans hlog⟩

/-- An event that is logged comes last in the log. -/
theorem AreQuiet.log_of_log (hw : w.AreQuiet) {notice : Notice}
    (ht : Process.Told w.answer state [⟨.log notice, ()⟩] state') :
    state'.system.store = state.system.store ∧
      state'.system.log = (state.system.log.append notice).2 := by
  obtain ⟨hanswer, rfl⟩ := ht
  obtain ⟨hstore, hlog⟩ := hw state.trace state.system
  obtain ⟨hsame, hafter⟩ := (w.isFaithful_next state _).logs (step_next hanswer)
  exact ⟨hsame.trans hstore,
    hafter.trans (congrArg (fun log => (EventLog.append log notice).2) hlog)⟩

end

end Surroundings

end Editorial
