import Editorial.Proofs.Desk.Job
import Editorial.System

/-!
# Offices

In an office many clients work at one desk and on one store. Each has a job, and
the job is a process that takes its steps one at a time; between any two of them
the other clients may take theirs. A run of an office is a list of moves, each
of which either lets a client enter or lets one take its next step, so a
statement about all lists of moves is one about all interleavings.

A move brings along what the system does not decide: the time at which the step
is taken, and a name in case the step asks for a new one. A name that is in use
is not given out.

What a client was told so far is its journal. It is kept for the proofs alone;
no step looks at it.

## Main results

* `step_cases` — all that a move can do.
* `traces_step` — a journal leads from the beginning of a job to where it is.
-/

namespace Editorial

/-- Somebody who has a desk do a job. -/
structure Client where
  job : Job
  /-- The steps taken so far. -/
  journal : List Taken
  /-- What is left to do. -/
  process : Process (Except Failure Product)

/-- A system and those who work on it. -/
structure Office where
  system : System
  /-- The names that are in use or were. -/
  names : List String
  clients : List Client

/-- What may happen next. -/
inductive Move where
  /-- A client comes with a job. -/
  | enter (job : Job)
  /-- A client takes its next step, at the time `now`; `name` is a new name. -/
  | advance (client : Nat) (now : Instant) (name : String)

/-- The journal of a client leads from the beginning of its job to where it is. -/
def Client.Traces (desk : Desk) (c : Client) : Prop :=
  (desk.process c.job).Reaches c.journal c.process

theorem Client.Traces.reaches {desk : Desk} {c : Client} (h : c.Traces desk)
    {p : Process (Except Failure Product)} (hp : c.process = p) :
    (desk.process c.job).Reaches c.journal p := by
  rw [← hp]
  exact h

namespace Office

/-- An office before anybody has come. The ids of the stored records are in use. -/
def opening (s : System) : Office := ⟨s, s.store.keys, []⟩

/-- Whether a step cannot be answered with the name, as it is in use. -/
def refuses (o : Office) : Query → String → Bool
  | .fresh _, name => o.names.contains name
  | _, _ => false

/-- A name that is given out was not in use. -/
theorem not_mem_of_refuses {o : Office} {kind : NameKind} {name : String}
    (h : o.refuses (.fresh kind) name = false) : name ∉ o.names := by
  intro hm
  have hused : o.names.contains name = true := List.contains_iff_mem.2 hm
  have hfresh : o.names.contains name = false := h
  rw [hused] at hfresh
  cases hfresh

/-- The answer to a step and the system after it. -/
def answer (o : Office) (query : Query) (now : Instant) (name : String) :
    query.Answer × System :=
  { o.system with clock := now }.answer (fun _ _ => name) query

/-- The names that are in use after a step. -/
def namesAfter (o : Office) : Query → String → List String
  | .fresh _, name => name :: o.names
  | _, _ => o.names

/-- Client number `i`, which is `c`, takes a step. -/
def take (o : Office) (i : Nat) (c : Client) (query : Query)
    (next : query.Answer → Process (Except Failure Product)) (now : Instant) (name : String) :
    Office where
  system := (o.answer query now name).2
  names := o.namesAfter query name
  clients := o.clients.set i
    ⟨c.job, c.journal ++ [⟨query, (o.answer query now name).1⟩], next (o.answer query now name).1⟩

/-- Makes a move. Nothing happens if it cannot be made. -/
def step (desk : Desk) (o : Office) : Move → Office
  | .enter job => { o with clients := o.clients ++ [⟨job, [], desk.process job⟩] }
  | .advance i now name =>
      match o.clients[i]? with
      | none => o
      | some c =>
          match c.process with
          | .done _ => o
          | .broken => o
          | .ask query next => if o.refuses query name then o else o.take i c query next now name

/-- Makes moves one after another. -/
def run (desk : Desk) (o : Office) (moves : List Move) : Office := moves.foldl (step desk) o

theorem run_append (desk : Desk) (o : Office) (moves moves' : List Move) :
    o.run desk (moves ++ moves') = (o.run desk moves).run desk moves' := List.foldl_append

theorem run_concat (desk : Desk) (o : Office) (moves : List Move) (move : Move) :
    o.run desk (moves ++ [move]) = (o.run desk moves).step desk move := run_append ..

/-- What client number `i` has come to if it has ended. -/
def ended? (o : Office) (i : Nat) : Option (Option (Except Failure Product)) := do
  (← o.clients[i]?).process.ended?

variable {desk : Desk}

/-- All that a move can do: a client enters, nothing happens, or a client takes
its next step. -/
theorem step_cases (desk : Desk) (o : Office) (move : Move) :
    (∃ job, move = .enter job ∧
        o.step desk move = { o with clients := o.clients ++ [⟨job, [], desk.process job⟩] }) ∨
      o.step desk move = o ∨
      ∃ i c query next now name, move = .advance i now name ∧ o.clients[i]? = some c ∧
        c.process = .ask query next ∧ o.refuses query name = false ∧
        o.step desk move = o.take i c query next now name := by
  cases move with
  | enter job => exact Or.inl ⟨job, rfl, rfl⟩
  | advance i now name =>
      rw [step]
      cases hc : o.clients[i]? with
      | none => exact Or.inr (Or.inl rfl)
      | some c =>
          cases hp : c.process with
          | done a =>
              refine Or.inr (Or.inl ?_)
              simp only [hp]
          | broken =>
              refine Or.inr (Or.inl ?_)
              simp only [hp]
          | ask query next =>
              simp only [hp]
              cases hr : o.refuses query name with
              | true => exact Or.inr (Or.inl rfl)
              | false =>
                  exact Or.inr (Or.inr ⟨i, c, query, next, now, name, rfl, hc, hp, hr, rfl⟩)

/-- What the moves of a run keep, the run keeps. -/
theorem run_induction_of_mem {I : Office → Prop} {moves : List Move}
    (hstep : ∀ o, ∀ move ∈ moves, I o → I (o.step desk move)) {o : Office} (h : I o) :
    I (o.run desk moves) := by
  induction moves generalizing o with
  | nil => exact h
  | cons move rest ih =>
      exact ih (fun o move hm => hstep o move (List.mem_cons_of_mem _ hm))
        (hstep o move (List.mem_cons_self ..) h)

/-- What every move keeps, every run keeps. -/
theorem run_induction {I : Office → Prop} (hstep : ∀ o move, I o → I (o.step desk move))
    {o : Office} (h : I o) (moves : List Move) : I (o.run desk moves) :=
  run_induction_of_mem (fun o move _ => hstep o move) h

theorem mem_clients_take {o : Office} {i : Nat} {c : Client} {query : Query}
    {next : query.Answer → Process (Except Failure Product)} {now : Instant} {name : String}
    {c' : Client} (hm : c' ∈ (o.take i c query next now name).clients) :
    c' ∈ o.clients ∨ c' = ⟨c.job, c.journal ++ [⟨query, (o.answer query now name).1⟩],
      next (o.answer query now name).1⟩ := by
  rcases List.mem_or_eq_of_mem_set hm with hm | rfl
  · exact Or.inl hm
  · exact Or.inr rfl

/-! ## Names -/

theorem subset_namesAfter (o : Office) (query : Query) (name : String) :
    o.names ⊆ o.namesAfter query name := by
  cases query with
  | fresh kind => exact List.subset_cons_self _ _
  | now | load id | find location | folder category container | commit changes
  | pause milliseconds | log notice => exact List.Subset.refl _

/-- A name that is given out was not in use and is then. -/
theorem mem_namesAfter {o : Office} {query : Query} {now : Instant} {name : String}
    (hr : o.refuses query name = false) {kind : NameKind} {n : String}
    (he : (⟨query, (o.answer query now name).1⟩ : Taken) = .fresh kind n) :
    n ∈ o.namesAfter query name ∧ n ∉ o.names := by
  cases query with
  | fresh kind' =>
      cases he
      exact ⟨List.mem_cons_self .., not_mem_of_refuses hr⟩
  | now | load id | find location | folder category container | commit changes
  | pause milliseconds | log notice => cases he

theorem names_step (desk : Desk) (o : Office) (move : Move) :
    o.names ⊆ (o.step desk move).names := by
  rcases step_cases desk o move with ⟨job, -, hstep⟩ | hstep |
    ⟨i, c, query, next, now, name, -, -, -, -, hstep⟩ <;> rw [hstep]
  · exact List.Subset.refl _
  · exact List.Subset.refl _
  · exact o.subset_namesAfter query name

/-! ## Ends -/

theorem of_ended? {o : Office} {i : Nat} {r : Option (Except Failure Product)}
    (h : o.ended? i = some r) :
    ∃ c, o.clients[i]? = some c ∧ c.process = Process.ended r := by
  obtain ⟨c, hc, hp⟩ := Option.bind_eq_some_iff.1 h
  exact ⟨c, hc, Process.ended_of_ended? hp⟩

/-! ## Journals -/

theorem traces_step (o : Office) (move : Move) (h : ∀ c ∈ o.clients, Client.Traces desk c) :
    ∀ c ∈ (o.step desk move).clients, Client.Traces desk c := by
  rcases step_cases desk o move with ⟨job, -, hstep⟩ | hstep |
    ⟨i, c, query, next, now, name, -, hc, hp, -, hstep⟩
  · rw [hstep]
    intro c hm
    rcases List.mem_append.1 hm with hm | hm
    · exact h c hm
    · rw [List.mem_singleton.1 hm]
      exact rfl
  · rw [hstep]
    exact h
  · rw [hstep]
    intro c' hm
    rcases mem_clients_take hm with hm | rfl
    · exact h c' hm
    · have hreaches := (h c (List.mem_of_getElem? hc)).reaches hp
      exact (Process.reaches_append _ _ _ _).2 ⟨_, hreaches, next, rfl, rfl⟩

end Office

end Editorial
