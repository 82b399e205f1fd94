import Editorial.Proofs.Pipeline.Careful
import Editorial.Proofs.Store.Commit
import Editorial.System

/-!
# Running alone

A system that runs a process alone answers from its store and folders, but the
time and the new names come from outside and change from step to step. They are
a parameter of the run: at each step a reading of the clock, and a name in case
one is asked for.

## Main results

* `answeredBy_of_told` — a process that only reads is answered from one store.
* `exists_told` — what a system answers and the readings give, a run is told.
* `runAt_congr` — what a run comes to depends on the records and folders only.
* `runAt_now_now` — a run that looks at the clock twice is one that begins later.
-/

namespace Editorial

/-- What a run is told from outside at each of its steps. -/
structure Readings where
  clock : Nat → Instant
  names : Nat → String

namespace System

/-- Answers step number `s.2` in the system `s.1`. -/
def answerAt (readings : Readings) (s : System × Nat) (query : Query) :
    query.Answer × (System × Nat) :=
  let r := { s.1 with clock := readings.clock s.2 }.answer (fun _ _ => readings.names s.2) query
  (r.1, (r.2, s.2 + 1))

/-- Runs a process alone, with readings from outside. -/
def runAt {α : Type} (readings : Readings) (p : Process α) (s : System) : Option α × System :=
  let r := p.run (answerAt readings) (s, 0)
  (r.1, r.2.1)

end System

/-- The step is answered as the store and the folders of a system have it. -/
def Taken.AnsweredBy (s : System) : Taken → Prop
  | ⟨.load id, answer⟩ => answer = s.backend.load s.store id
  | ⟨.find location, answer⟩ => answer = .ok (s.store.find? location)
  | ⟨.folder category container, answer⟩ => answer = .ok (s.folders.folder? category container)
  | ⟨.now, _⟩ => True
  | ⟨.fresh _, _⟩ => True
  | ⟨.commit changes, answer⟩ => answer = .ok (s.backend.commit s.store changes).1
  | ⟨.pause _, _⟩ => True
  | ⟨.log _, _⟩ => True

namespace System

/-- Every record in the store can be loaded: always so in memory, and in a table unless a
content is nested too deep. -/
def IsReadable (s : System) : Prop :=
  ∀ id stored, s.store.get? id = some stored → s.backend.canRead stored.record = true

theorem isReadable_of_whole {s : System} (hwhole : s.backend = .whole) : s.IsReadable := by
  intro id stored _
  rw [hwhole]
  rfl

theorem IsReadable.load_ne_error {s : System} (hs : s.IsReadable) (id : String)
    (failure : Failure) : s.backend.load s.store id ≠ .error failure := by
  cases hget : s.store.get? id with
  | none =>
      rw [Backend.load_of_get?_none hget]
      exact nofun
  | some stored =>
      rw [Backend.load_of_canRead hget (hs id stored hget)]
      exact nofun

/-- Two systems keep the same records and know the same folders. -/
structure SameData (s s' : System) : Prop where
  backend : s'.backend = s.backend
  store : s'.store = s.store
  folders : s'.folders = s.folders

theorem SameData.refl (s : System) : SameData s s := ⟨rfl, rfl, rfl⟩

theorem SameData.trans {s s' s'' : System} (h : SameData s s') (h' : SameData s' s'') :
    SameData s s'' :=
  ⟨h'.backend.trans h.backend, h'.store.trans h.store, h'.folders.trans h.folders⟩

theorem SameData.symm {s s' : System} (h : SameData s s') : SameData s' s :=
  ⟨h.backend.symm, h.store.symm, h.folders.symm⟩

/-- What is answered depends on the records and folders only. -/
theorem SameData.answeredBy {s s' : System} (h : SameData s s') {t : Taken}
    (ht : t.AnsweredBy s') : t.AnsweredBy s := by
  rcases t with ⟨query, answer⟩
  cases query <;> simp only [Taken.AnsweredBy, h.backend, h.store, h.folders] at ht ⊢ <;> exact ht

theorem answeredBy_answer (mint : NameKind → Nat → String) (s : System) (query : Query) :
    Taken.AnsweredBy s ⟨query, (s.answer mint query).1⟩ := by
  cases query <;> first | rfl | trivial

theorem sameData_answer (mint : NameKind → Nat → String) (s : System) {query : Query}
    (hq : ∀ changes, query ≠ .commit changes) : SameData s (s.answer mint query).2 := by
  cases query with
  | commit changes => exact absurd rfl (hq changes)
  | now => exact SameData.refl s
  | fresh kind => exact ⟨rfl, rfl, rfl⟩
  | load id => exact SameData.refl s
  | find location => exact SameData.refl s
  | folder category container => exact SameData.refl s
  | pause milliseconds => exact SameData.refl s
  | log notice => exact ⟨rfl, rfl, rfl⟩

theorem answeredBy_answerAt (readings : Readings) (s : System × Nat) (query : Query) :
    Taken.AnsweredBy s.1 ⟨query, (answerAt readings s query).1⟩ :=
  SameData.answeredBy ⟨rfl, rfl, rfl⟩
    (answeredBy_answer (fun _ _ => readings.names s.2)
      { s.1 with clock := readings.clock s.2 } query)

theorem sameData_answerAt (readings : Readings) (s : System × Nat) {query : Query}
    (hq : ∀ changes, query ≠ .commit changes) :
    SameData s.1 (answerAt readings s query).2.1 := by
  have hclock : SameData s.1 { s.1 with clock := readings.clock s.2 } := ⟨rfl, rfl, rfl⟩
  exact hclock.trans (sameData_answer _ _ hq)

/-- Steps that only read are answered from one store and one set of folders. -/
theorem answeredBy_of_told {readings : Readings} {s s' : System × Nat} {path : List Taken}
    (ht : Process.Told (answerAt readings) s path s')
    (hq : ∀ t ∈ path, t.query.IsReading) : ∀ t ∈ path, t.AnsweredBy s.1 := by
  induction path generalizing s with
  | nil =>
      intro t hm
      cases hm
  | cons t path ih =>
      intro t' hm
      have hreads : ∀ changes, t.query ≠ .commit changes := by
        intro changes he
        have := hq t (List.mem_cons_self ..)
        rw [he] at this
        exact this
      have hfirst : t.AnsweredBy s.1 := by
        have := answeredBy_answerAt readings s t.query
        rw [ht.1] at this
        exact this
      rcases List.mem_cons.1 hm with rfl | hm
      · exact hfirst
      · have hrest := ih ht.2 (fun t' hm' => hq t' (List.mem_cons_of_mem _ hm')) t' hm
        exact (sameData_answerAt readings s hreads).answeredBy hrest

/-! ## What a run is told -/

end System

/-- The step was told this time or given this name, if it asked for one. -/
def Taken.ReadFrom (now : Instant) (name : String) : Taken → Prop
  | ⟨.now, answer⟩ => answer = now
  | ⟨.fresh _, answer⟩ => answer = name
  | _ => True

/-- From step number `n` on the readings give what the steps were told. -/
def Readings.Gives (readings : Readings) : Nat → List Taken → Prop
  | _, [] => True
  | n, t :: path => t.ReadFrom (readings.clock n) (readings.names n) ∧ readings.Gives (n + 1) path

theorem Readings.gives_append (readings : Readings) (n : Nat) (path path' : List Taken) :
    readings.Gives n (path ++ path') ↔
      readings.Gives n path ∧ readings.Gives (n + path.length) path' := by
  induction path generalizing n with
  | nil => simp [Gives]
  | cons t path ih =>
      simp only [List.cons_append, Gives, ih, List.length_cons, and_assoc]
      rw [Nat.add_right_comm n 1, Nat.add_assoc]

namespace System

/-- A step that only reads is answered as the system has it and the readings
give it. -/
theorem answerAt_eq {readings : Readings} {s : System × Nat} {t : Taken}
    (hreads : t.query.IsReading) (hanswered : t.AnsweredBy s.1)
    (hread : t.ReadFrom (readings.clock s.2) (readings.names s.2)) :
    (answerAt readings s t.query).1 = t.answer := by
  rcases t with ⟨query, answer⟩
  cases query with
  | now => exact hread.symm
  | fresh kind => exact hread.symm
  | load id => exact hanswered.symm
  | find location => exact hanswered.symm
  | folder category container => exact hanswered.symm
  | commit changes => exact False.elim hreads
  | pause milliseconds => exact False.elim hreads
  | log notice => exact False.elim hreads

/-- Steps that only read are told what the system answers and the readings
give, and leave the records and folders. -/
theorem exists_told {readings : Readings} {s : System × Nat} {path : List Taken}
    (hreads : ∀ t ∈ path, t.query.IsReading) (hanswered : ∀ t ∈ path, t.AnsweredBy s.1)
    (hgives : readings.Gives s.2 path) :
    ∃ s', Process.Told (answerAt readings) s path s' ∧ SameData s.1 s'.1 ∧
      s'.2 = s.2 + path.length := by
  induction path generalizing s with
  | nil => exact ⟨s, rfl, SameData.refl _, rfl⟩
  | cons t path ih =>
      have hm := List.mem_cons_self (a := t) (l := path)
      have hcommit : ∀ changes, t.query ≠ .commit changes := by
        intro changes he
        have hread := hreads t hm
        rw [he] at hread
        exact hread
      have hsame := sameData_answerAt readings s hcommit
      have hrest : ∀ t' ∈ path, t'.AnsweredBy (answerAt readings s t.query).2.1 := by
        intro t' hm'
        exact hsame.symm.answeredBy (hanswered t' (List.mem_cons_of_mem _ hm'))
      obtain ⟨s', htold, hsame', hn⟩ := ih (s := (answerAt readings s t.query).2)
        (fun t' hm' => hreads t' (List.mem_cons_of_mem _ hm')) hrest hgives.2
      refine ⟨s', ⟨answerAt_eq (hreads t hm) (hanswered t hm) hgives.1, htold⟩,
        hsame.trans hsame', ?_⟩
      rw [hn, List.length_cons]
      show s.2 + 1 + path.length = s.2 + (path.length + 1)
      omega

/-- A run that is told the steps of a path comes to its end. -/
theorem runAt_of_leads {α : Type} {readings : Readings} {s : System} {p : Process α}
    {path : List Taken} {result : Option α} {s' : System × Nat} (hl : p.Leads path result)
    (ht : Process.Told (answerAt readings) (s, 0) path s') :
    s.runAt readings p = (result, s'.1) := by
  unfold runAt
  rw [Process.run_of_reaches (answerAt readings) hl ht]
  cases result <;> rfl

/-! ## What a run depends on -/

theorem answerAt_congr {readings : Readings} {s s' : System} (hs : SameData s s') (n : Nat)
    (query : Query) :
    (answerAt readings (s', n) query).1 = (answerAt readings (s, n) query).1 ∧
      SameData (answerAt readings (s, n) query).2.1 (answerAt readings (s', n) query).2.1 := by
  obtain ⟨hbackend, hstore, hfolders⟩ := hs
  cases query with
  | now => exact ⟨rfl, hbackend, hstore, hfolders⟩
  | fresh kind => exact ⟨rfl, hbackend, hstore, hfolders⟩
  | load id =>
      refine ⟨?_, hbackend, hstore, hfolders⟩
      show s'.backend.load s'.store id = s.backend.load s.store id
      rw [hbackend, hstore]
  | find location =>
      refine ⟨?_, hbackend, hstore, hfolders⟩
      show Except.ok (s'.store.find? location) = Except.ok (s.store.find? location)
      rw [hstore]
  | folder category container =>
      refine ⟨?_, hbackend, hstore, hfolders⟩
      show Except.ok (s'.folders.folder? category container) =
        Except.ok (s.folders.folder? category container)
      rw [hfolders]
  | commit changes =>
      have hcommit : s'.backend.commit s'.store changes = s.backend.commit s.store changes := by
        rw [hbackend, hstore]
      refine ⟨?_, hbackend, ?_, hfolders⟩
      · show Except.ok (s'.backend.commit s'.store changes).1 =
          Except.ok (s.backend.commit s.store changes).1
        rw [hcommit]
      · show (s'.backend.commit s'.store changes).2 = (s.backend.commit s.store changes).2
        rw [hcommit]
  | pause milliseconds => exact ⟨rfl, hbackend, hstore, hfolders⟩
  | log notice => exact ⟨rfl, hbackend, hstore, hfolders⟩

theorem run_answerAt_congr {α : Type} (readings : Readings) (p : Process α) {s s' : System}
    (hs : SameData s s') (n : Nat) :
    (p.run (answerAt readings) (s', n)).1 = (p.run (answerAt readings) (s, n)).1 ∧
      SameData (p.run (answerAt readings) (s, n)).2.1 (p.run (answerAt readings) (s', n)).2.1 := by
  induction p generalizing s s' n with
  | done a => exact ⟨rfl, hs⟩
  | broken => exact ⟨rfl, hs⟩
  | ask query next ih =>
      obtain ⟨hanswer, hsame⟩ := answerAt_congr hs n query
      unfold Process.run
      rw [hanswer]
      exact ih _ hsame (n + 1)

/-- What a run comes to and leaves in the store depends on the records and
folders only. -/
theorem runAt_congr {α : Type} (readings : Readings) (p : Process α) {s s' : System}
    (hs : SameData s s') :
    (s'.runAt readings p).1 = (s.runAt readings p).1 ∧
      SameData (s.runAt readings p).2 (s'.runAt readings p).2 :=
  run_answerAt_congr readings p hs 0

end System

/-! ## Runs that begin with a look at the clock -/

/-- The readings but the first. -/
def Readings.rest (readings : Readings) : Readings where
  clock n := readings.clock (n + 1)
  names n := readings.names (n + 1)

namespace System

/-- A run that begins a step later is told the rest of the readings. -/
theorem run_answerAt_rest {α : Type} (readings : Readings) (p : Process α) (s : System) (n : Nat) :
    (p.run (answerAt readings) (s, n + 1)).1 = (p.run (answerAt readings.rest) (s, n)).1 ∧
      (p.run (answerAt readings) (s, n + 1)).2.1 =
        (p.run (answerAt readings.rest) (s, n)).2.1 := by
  induction p generalizing s n with
  | done a => exact ⟨rfl, rfl⟩
  | broken => exact ⟨rfl, rfl⟩
  | ask query next ih => exact ih _ _ (n + 1)

/-- What follows a look at the clock is run with the rest of the readings. -/
theorem runAt_ask_now {α : Type} (readings : Readings) (next : Instant → Process α)
    (s : System) :
    s.runAt readings (.ask .now next) =
      { s with clock := readings.clock 0 }.runAt readings.rest (next (readings.clock 0)) := by
  obtain ⟨hresult, hsystem⟩ := run_answerAt_rest readings (next (readings.clock 0))
    { s with clock := readings.clock 0 } 0
  exact Prod.ext hresult hsystem

/-- A second look at the clock makes the first one forgotten. -/
theorem runAt_now_now {α : Type} (readings : Readings) {first next : Instant → Process α}
    (hfirst : first (readings.clock 0) = .ask .now next) (s : System) :
    s.runAt readings (.ask .now first) = s.runAt readings.rest (.ask .now next) := by
  rw [runAt_ask_now, hfirst, runAt_ask_now, runAt_ask_now]

end System

end Editorial
