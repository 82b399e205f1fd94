import Mathlib.Data.List.DropRight
import Editorial.Proofs.Desk.Alone
import Editorial.Proofs.Hints.Agreement
import Editorial.Proofs.Office.Current

/-!
# Commits as if alone

Clients decide on what they read, and others commit in between. Still every
commit that succeeds does to the store what the whole job would have done if it
had run alone just then. The commit makes sure that the records it was prepared
from are the ones in the store, and that the places it was told to be vacant are,
so the job would have been told the same, but for its lost attempts. What it reads
from outside is to be the same as well: the time, and the new names. Those are in
the steps before the first load, which a job takes once, and in its last attempt.

## Main results

* `exists_runAt_of_commit` — a commit does what its job does alone.
* `commits_serializable` — the store is that of the committed jobs one after
  another, in the order of their commits.
-/

namespace Editorial

/-! ## What a job is told for its commit -/

/-- Whether the step loads a record. -/
def Taken.isLoad : Taken → Bool
  | ⟨.load _, _⟩ => true
  | _ => false

/-- Whether the step waits before another attempt. -/
def Taken.isPause : Taken → Bool
  | ⟨.pause _, _⟩ => true
  | _ => false

/-- The steps of a journal that prepare its commit: those before the first load,
and those of the last attempt. -/
def script (journal : List Taken) : List Taken :=
  journal.takeWhile (fun t => !t.isLoad) ++
    (journal.dropWhile fun t => !t.isLoad).rtakeWhile fun t => !t.isPause

theorem isLoad_of_isNow {t : Taken} (ht : t.query = .now) : t.isLoad = false := by
  rcases t with ⟨query, answer⟩
  cases ht
  rfl

theorem isPause_of_isReading {t : Taken} (ht : t.query.IsReading) : t.isPause = false := by
  rcases t with ⟨query, answer⟩
  cases query <;> first | rfl | exact False.elim ht

theorem script_of_forall {journal : List Taken} (h : ∀ t ∈ journal, t.isLoad = false) :
    script journal = journal := by
  have hall : ∀ t ∈ journal, (!t.isLoad) = true := by
    intro t hm
    rw [h t hm]
    rfl
  unfold script
  rw [List.takeWhile_eq_self_iff.2 hall, List.dropWhile_eq_nil_iff.2 hall, List.rtakeWhile_nil,
    List.append_nil]

/-- What counts after a pause is what follows it. -/
theorem rtakeWhile_of_pause {before after : List Taken} {milliseconds : Nat}
    (h : ∀ t ∈ after, (!t.isPause) = true) :
    (before ++ [(⟨.pause milliseconds, ()⟩ : Taken)] ++ after).rtakeWhile (fun t => !t.isPause) =
      after := by
  have hafter : ∀ t ∈ after.reverse, (!t.isPause) = true := by
    intro t hm
    exact h t (List.mem_reverse.1 hm)
  unfold List.rtakeWhile
  rw [List.reverse_append, List.takeWhile_append_of_pos hafter, List.reverse_append]
  simp [Taken.isPause]

/-- Lost attempts do not count. -/
theorem script_of_attempt {id : String} {opening lost rest : List Taken}
    {answer : Except Failure (Option Stored)} (hopens : ∀ t ∈ opening, t.query = .now)
    (hlost : Desk.IsLost id lost)
    (hreads : ∀ t ∈ ⟨.load id, answer⟩ :: rest, t.query.IsReading) :
    script (opening ++ (lost ++ ⟨.load id, answer⟩ :: rest)) =
      opening ++ ⟨.load id, answer⟩ :: rest := by
  have hnoload : ∀ t ∈ opening, (!t.isLoad) = true := by
    intro t hm
    rw [isLoad_of_isNow (hopens t hm)]
    rfl
  have hnopause : ∀ t ∈ ⟨.load id, answer⟩ :: rest, (!t.isPause) = true := by
    intro t hm
    rw [isPause_of_isReading (hreads t hm)]
    rfl
  unfold script
  rw [List.takeWhile_append_of_pos hnoload, List.dropWhile_append_of_pos hnoload]
  rcases hlost with rfl | ⟨answer', first, milliseconds, rfl⟩
  · rw [List.nil_append, List.takeWhile_cons_of_neg (by simp [Taken.isLoad]),
      List.dropWhile_cons_of_neg (by simp [Taken.isLoad]), List.append_nil,
      List.rtakeWhile_eq_self_iff.2 hnopause]
  · rw [List.cons_append, List.cons_append, List.takeWhile_cons_of_neg (by simp [Taken.isLoad]),
      List.dropWhile_cons_of_neg (by simp [Taken.isLoad]), List.append_nil, ← List.cons_append,
      ← List.cons_append, rtakeWhile_of_pause hnopause]

/-- What a job is told that is prepared again: the steps that prepared its commit
the last time. -/
theorem gives_of_script {desk : Desk} {id user : String} {op : Operation}
    {arguments : Arguments} {opening lost last : List Taken} {changes : List Change}
    {t : Transaction} (htable : desk.table = .standard) (hopens : ∀ t ∈ opening, t.query = .now)
    (hlost : Desk.IsLost id lost) (hprepares : desk.Prepares id user op arguments last changes t)
    {readings : Readings} (hgives : readings.Gives 0 (script (opening ++ (lost ++ last)))) :
    readings.Gives 0 (opening ++ last) := by
  have hreads := hprepares.isReading htable
  cases hprepares with
  | loaded hallows heffect hchanges =>
      rw [script_of_attempt hopens hlost hreads] at hgives
      exact hgives

/-! ## What a commit has made sure of -/

theorem Readings.gives_foundIn (readings : Readings) (s : Store) (n : Nat) (path : List Taken) :
    readings.Gives n (path.map (Taken.foundIn s)) ↔ readings.Gives n path := by
  induction path generalizing n with
  | nil => rfl
  | cons t path ih =>
      have hread : ∀ now name, (t.foundIn s).ReadFrom now name ↔ t.ReadFrom now name := by
        intro now name
        rcases t with ⟨query, answer⟩
        cases query <;> rfl
      simp only [List.map_cons, Gives, hread, ih]

theorem Taken.isReading_foundIn (s : Store) {t : Taken} (ht : t.query.IsReading) :
    (t.foundIn s).query.IsReading := by
  rcases t with ⟨query, answer⟩
  cases query <;> exact ht

theorem Taken.answeredBy_of_isNow (s : System) {t : Taken} (ht : t.query = .now) :
    t.AnsweredBy s := by
  rcases t with ⟨query, answer⟩
  cases ht
  trivial

theorem Taken.isReading_of_isNow {t : Taken} (ht : t.query = .now) : t.query.IsReading := by
  rw [ht]
  trivial

/-- The readings that give a list of steps what they were told. -/
def Readings.ofScript (path : List Taken) : Readings where
  clock n := match path[n]? with
    | some ⟨.now, answer⟩ => answer
    | _ => .epoch
  names n := match path[n]? with
    | some ⟨.fresh _, answer⟩ => answer
    | _ => ""

theorem Readings.gives_ofScript (path : List Taken) : (ofScript path).Gives 0 path := by
  have hgives : ∀ before after, before ++ after = path →
      (ofScript path).Gives before.length after := by
    intro before after
    induction after generalizing before with
    | nil => exact fun _ => trivial
    | cons t after ih =>
        intro he
        have hget : path[before.length]? = some t := by
          rw [← he, List.getElem?_append_right (Nat.le_refl _), Nat.sub_self]
          rfl
        refine ⟨?_, ?_⟩
        · rcases t with ⟨query, answer⟩
          cases query with
          | now | fresh kind => simp [Taken.ReadFrom, ofScript, hget]
          | load id | find location | folder category container | commit changes
          | pause milliseconds | log notice => trivial
        · have hrest := ih (before ++ [t]) (by rw [← he, List.append_assoc]; rfl)
          rwa [List.length_append] at hrest
  exact hgives [] path rfl

namespace Office

variable {desk : Desk} {o : Office}

namespace Current

/-- A record that is loaded at the revision in the store is the one in the store. -/
theorem load_of_revision (h : o.Current desk) {id : String} {loaded : Stored}
    (ht : o.Tells (.load id (some loaded)))
    (hrevision : o.system.store.revision? loaded.record.id = some loaded.revision) :
    o.system.backend.load o.system.store id = .ok (some loaded) := by
  obtain ⟨-, hid, hcurrent⟩ := h.loaded id loaded ht
  rw [hid] at hrevision
  obtain ⟨stored, hget, hequal⟩ := Option.map_eq_some_iff.1 hrevision
  rcases hcurrent stored hget with hlt | hout
  · omega
  · exact Backend.load_eq_some_iff.2 ⟨stored, hget, hout⟩

/-- So is every record that a commit was prepared from, if the commit found the
revisions it expected. -/
theorem load_of_prepares (h : o.Current desk) {id user : String} {op : Operation}
    {arguments : Arguments} {path : List Taken} {changes : List Change} {t : Transaction}
    (hp : desk.Prepares id user op arguments path changes t) (htold : ∀ step ∈ path, o.Tells step)
    (hexpected : ∀ change ∈ changes, o.system.store.revision? change.id = change.expected?)
    {id' : String} {loaded : Stored} (hm : .load id' (some loaded) ∈ path) :
    o.system.backend.load o.system.store id' = .ok (some loaded) := by
  refine h.load_of_revision (htold _ hm) ?_
  cases hp with
  | @loaded stored path r _ _ hallows heffect hchanges =>
      have hid : stored.record.id = id :=
        (h.loaded id stored (htold _ (List.mem_cons_self ..))).2.1
      obtain ⟨first, rfl, hfirst, hrevision, -⟩ :=
        Desk.exists_head hchanges (heffect.id_eq.trans hid)
      rcases List.mem_cons.1 hm with he | hm
      · cases he
        rw [hid, ← hfirst, hexpected first (List.mem_cons_self ..), hrevision]
      · obtain ⟨other, he, change, hstaged, hchangeid, hrevision⟩ := heffect.staged_of_load hm
        cases he
        rw [← hchangeid, hexpected change (List.mem_cons_of_mem _ hstaged), hrevision]

/-- A place in which a record is put is vacant, or it has the record in hand, if
the other records are new ones. -/
theorem find?_of_admitted (h : o.Current desk) {changes : List Change}
    (ha : o.system.store.Admitted changes) {location : Location} {id : String}
    (hput : ∃ change ∈ changes, change.location? = some location)
    (hnew : ∀ change ∈ changes, change.id = id ∨ change.expected? = none) :
    o.system.store.find? location = none ∨ o.system.store.find? location = some id := by
  cases hfound : o.system.store.find? location with
  | none => exact Or.inl rfl
  | some id' =>
      obtain ⟨change, hm, hlocation⟩ := hput
      obtain ⟨stored, hget, hstored⟩ := h.filed.exists_of_find? hfound
      obtain ⟨change', hm', rfl⟩ := List.mem_map.1
        (ha.vacant change hm location hlocation id' stored hget hstored)
      rcases hnew change' hm' with rfl | hnone
      · exact Or.inr rfl
      · have hexpected := ha.expected change' hm'
        rw [hnone] at hexpected
        rw [Store.revision?_of_get? hget] at hexpected
        cases hexpected

/-- What an admitted commit was prepared from is what the system answers, but for
what was found in places; and whatever is found there, the same is prepared. -/
theorem prepares_foundIn (h : o.Current desk) (htable : desk.table = .standard)
    {id user : String} {op : Operation} {arguments : Arguments} {path : List Taken}
    {changes : List Change} {t : Transaction}
    (hp : desk.Prepares id user op arguments path changes t) (htold : ∀ step ∈ path, o.Tells step)
    (ha : o.system.store.Admitted changes) :
    desk.Prepares id user op arguments (path.map (Taken.foundIn o.system.store)) changes t ∧
      ∀ step ∈ path.map (Taken.foundIn o.system.store), step.AnsweredBy o.system := by
  have hreads := hp.isReading htable
  have hcurrent : ∀ {id loaded}, .load id (some loaded) ∈ path →
      o.system.backend.load o.system.store id = .ok (some loaded) := fun hm =>
    h.load_of_prepares hp htold ha.expected hm
  cases hp with
  | @loaded stored path r _ _ hallows heffect hchanges =>
      have htold' : ∀ step ∈ path, o.Tells step := fun step hm =>
        htold step (List.mem_cons_of_mem _ hm)
      have hid : stored.record.id = id :=
        (h.loaded id stored (htold _ (List.mem_cons_self ..))).2.1
      obtain ⟨first, rfl, hfirst, -, -, hfirstlocation⟩ :=
        Desk.exists_head hchanges (heffect.id_eq.trans hid)
      -- What was found in a place may be out of date, but now it is nothing or the
      -- record itself, and the tasks do the same in either case.
      have hfree : ∀ location answer, ⟨.find location, answer⟩ ∈ path →
          o.system.store.find? location = none ∨
            o.system.store.find? location = some stored.record.id := by
        intro location answer hm
        obtain ⟨hkeeps, hnew, hput⟩ := heffect.placed_of_find hm
        refine h.find?_of_admitted ha ?_ fun change hm => ?_
        · rcases hput with hput | ⟨change, hm, hlocation⟩
          · exact ⟨first, List.mem_cons_self .., (hfirstlocation hkeeps).trans hput⟩
          · exact ⟨change, List.mem_cons_of_mem _ hm, hlocation⟩
        · rcases List.mem_cons.1 hm with rfl | hm
          · exact Or.inl (hfirst.trans hid.symm)
          · exact Or.inr (hnew change hm)
      refine ⟨.loaded hallows (heffect.foundIn hfree) hchanges, fun step hm => ?_⟩
      rcases List.mem_cons.1 hm with rfl | hm
      · exact (hcurrent (List.mem_cons_self ..)).symm
      · obtain ⟨⟨query, answer⟩, hm', rfl⟩ := List.mem_map.1 hm
        have hread := hreads _ (List.mem_cons_of_mem _ hm')
        cases query with
        | now => trivial
        | fresh kind => trivial
        | find location => exact rfl
        | folder category container => exact h.folders category container answer (htold' _ hm')
        | load id' =>
            obtain ⟨loaded, rfl, -⟩ := heffect.staged_of_load hm'
            exact (hcurrent (List.mem_cons_of_mem _ hm')).symm
        | commit changes => exact False.elim hread
        | pause milliseconds => exact False.elim hread
        | log notice => exact False.elim hread

end Current

/-! ## A commit and its job -/

variable {i : Nat} {c : Client} {changes : List Change}
  {next : Except Failure Verdict → Process (Except Failure Product)}

/-- A commit that succeeds does to the store what the job does alone. -/
theorem exists_runAt_of_commit (htable : desk.table = .standard)
    (hwhole : o.system.backend = .whole) (h : o.Current desk) (hc : c ∈ o.clients)
    (hp : c.process = .ask (.commit changes) next)
    (hcommit : (o.system.backend.commit o.system.store changes).1 = .committed)
    {readings : Readings} (hgives : readings.Gives 0 (script c.journal)) :
    ∃ product s', o.system.runAt readings (desk.process c.job) = (some (.ok product), s') ∧
      System.SameData (o.system.committing changes) s' := by
  have htold : ∀ t ∈ c.journal, o.Tells t := fun t hm => ⟨c, hc, hm⟩
  have hadmitted : o.system.store.Admitted changes := by
    rw [hwhole] at hcommit
    exact (Store.admitted_of_commitWhole hcommit).1
  have hcommitting := h.committing htable hc hp
  generalize c.job = job at hcommitting
  generalize c.journal = journal at hcommitting htold hgives
  cases hcommitting with
  | @call id user call opening lost last op arguments _ t hopens hlost hprepares hsettles =>
      have hreads := hprepares.isReading htable
      obtain ⟨hprepares', hanswered⟩ := h.prepares_foundIn htable hprepares
        (fun step hm => htold step (List.mem_append_right _ (List.mem_append_right _ hm))) hadmitted
      have hgives' := gives_of_script htable hopens hlost hprepares hgives
      rw [Readings.gives_append] at hgives'
      let found := last.map (Taken.foundIn o.system.store)
      have hgivesFound : readings.Gives 0 (opening ++ found) :=
        (readings.gives_append _ _ _).2 ⟨hgives'.1, (readings.gives_foundIn _ _ _).2 hgives'.2⟩
      have hreadsFound : ∀ step ∈ opening ++ found, step.query.IsReading := by
        intro step hm
        rcases List.mem_append.1 hm with hm | hm
        · exact Taken.isReading_of_isNow (hopens step hm)
        · obtain ⟨step', hm', rfl⟩ := List.mem_map.1 hm
          exact Taken.isReading_foundIn _ (hreads step' hm')
      have hansweredFound : ∀ step ∈ opening ++ found, step.AnsweredBy o.system := by
        intro step hm
        rcases List.mem_append.1 hm with hm | hm
        · exact Taken.answeredBy_of_isNow _ (hopens step hm)
        · exact hanswered step hm
      obtain ⟨product, hl⟩ := hsettles hprepares' (readings.clock ((opening ++ found).length + 1))
      rw [← List.append_assoc] at hl
      obtain ⟨s', hrun, hsame⟩ :=
        System.runAt_of_settling hreadsFound hansweredFound hgivesFound hcommit hl
      exact ⟨product, s', hrun, hsame⟩
  | @create location stage content user id v now made hnamed hsettles =>
      have hscript : script [.fresh .handle id, .fresh .variant v, .now now] =
          [.fresh .handle id, .fresh .variant v, .now now] :=
        script_of_forall (by simp [Taken.isLoad])
      rw [hscript] at hgives
      obtain ⟨s', hrun, hsame⟩ := System.runAt_of_commit (by simp [Query.IsReading])
        (by simp [Taken.AnsweredBy]) hgives hcommit hsettles
      exact ⟨_, s', hrun, hsame⟩

/-! ## Commits one after another -/

/-- The client whose commit a move makes, if it makes one that succeeds. -/
def committing? (o : Office) : Move → Option Client
  | .enter _ => none
  | .advance i _ _ =>
      match o.clients[i]? with
      | none => none
      | some c =>
          match c.process with
          | .ask (.commit changes) _ =>
              if (o.system.backend.commit o.system.store changes).1 = .committed then some c
              else none
          | _ => none

/-- The clients whose commits succeed in a run, in the order of the commits. -/
def commits (desk : Desk) : Office → List Move → List Client
  | _, [] => []
  | o, move :: moves => (o.committing? move).toList ++ commits desk (o.step desk move) moves

/-- A move that makes a commit is a step of the client. -/
theorem take_of_committing? {move : Move} (h : o.committing? move = some c) :
    ∃ i changes next now name, move = .advance i now name ∧ o.clients[i]? = some c ∧
      c.process = .ask (.commit changes) next ∧
      (o.system.backend.commit o.system.store changes).1 = .committed ∧
      o.step desk move = o.take i c (.commit changes) next now name := by
  cases move with
  | enter job => cases h
  | advance i now name =>
      rw [committing?] at h
      cases hc : o.clients[i]? with
      | none =>
          simp only [hc] at h
          cases h
      | some c' =>
          simp only [hc] at h
          split at h
          · rename_i changes next hp
            by_cases hcommit : (o.system.backend.commit o.system.store changes).1 = .committed
            · rw [if_pos hcommit] at h
              cases h
              exact ⟨i, changes, next, now, name, rfl, hc, hp, hcommit,
                by simp only [step, hc, hp]; rfl⟩
            · rw [if_neg hcommit] at h
              cases h
          · cases h

/-- It changes the records as the commit does. -/
theorem of_committing? {move : Move} (h : o.committing? move = some c) :
    ∃ changes next, c ∈ o.clients ∧ c.process = .ask (.commit changes) next ∧
      (o.system.backend.commit o.system.store changes).1 = .committed ∧
      System.SameData (o.system.committing changes) (o.step desk move).system := by
  obtain ⟨i, changes, next, now, name, -, hc, hp, hcommit, hstep⟩ :=
    @take_of_committing? desk o c move h
  refine ⟨changes, next, List.mem_of_getElem? hc, hp, hcommit, ?_⟩
  rw [hstep]
  exact ⟨rfl, rfl, rfl⟩

/-- Any other move leaves the records. -/
theorem sameData_step {move : Move} (h : o.committing? move = none) :
    System.SameData o.system (o.step desk move).system := by
  rcases step_cases desk o move with ⟨job, -, hstep⟩ | hstep |
    ⟨i, c, query, next, now, name, rfl, hc, hp, -, hstep⟩
  · rw [hstep]
    exact System.SameData.refl _
  · rw [hstep]
    exact System.SameData.refl _
  · rw [hstep]
    cases query with
    | commit changes =>
        simp only [committing?, hc, hp] at h
        rcases o.system.backend.commit_cases o.system.store changes with ⟨id, hcommit⟩ | hcommit
        · refine ⟨rfl, ?_, rfl⟩
          show (o.system.backend.commit o.system.store changes).2 = o.system.store
          rw [hcommit]
        · rw [hcommit, if_pos rfl] at h
          cases h
    | now | fresh kind | load id | find location | folder category container
    | pause milliseconds | log notice => exact ⟨rfl, rfl, rfl⟩

end Office

/-- Runs the jobs of clients one after another, each of them alone. -/
def System.serially (desk : Desk) (readings : Client → Readings) (s : System)
    (clients : List Client) : System :=
  clients.foldl (fun s c => (s.runAt (readings c) (desk.process c.job)).2) s

/-- In a run of an office every commit does what the whole job does alone at that
time, and the run leaves the records that the committed jobs leave if they run
one after another. -/
structure Serializable (desk : Desk) (readings : Client → Readings) (o : Office)
    (moves : List Move) : Prop where
  alone : ∀ before move after c, moves = before ++ move :: after →
    (o.run desk before).committing? move = some c →
    ∃ product s', (o.run desk before).system.runAt (readings c) (desk.process c.job) =
        (some (.ok product), s') ∧
      s'.store = ((o.run desk before).step desk move).system.store
  serial : (o.system.serially desk readings (o.commits desk moves)).store =
    (o.run desk moves).system.store

namespace Office

variable {desk : Desk} {o : Office} {c : Client} {readings : Client → Readings}

theorem Current.alone (htable : desk.table = .standard) (hwhole : o.system.backend = .whole)
    (h : o.Current desk) (hgives : ∀ c, (readings c).Gives 0 (script c.journal)) {move : Move}
    (hc : o.committing? move = some c) :
    ∃ product s', o.system.runAt (readings c) (desk.process c.job) = (some (.ok product), s') ∧
      System.SameData s' (o.step desk move).system := by
  obtain ⟨changes, next, hm, hp, hcommit, hsame⟩ := of_committing? hc
  obtain ⟨product, s', hrun, hsame'⟩ :=
    exists_runAt_of_commit htable hwhole h hm hp hcommit (hgives c)
  exact ⟨product, s', hrun, hsame'.symm.trans hsame⟩

/-- Running the committed jobs one after another keeps up with the office. -/
theorem Current.serial (htable : desk.table = .standard)
    (hgives : ∀ c, (readings c).Gives 0 (script c.journal)) (moves : List Move) {s : System}
    (hwhole : o.system.backend = .whole) (h : o.Current desk) (hs : System.SameData s o.system) :
    System.SameData (s.serially desk readings (o.commits desk moves))
      (o.run desk moves).system := by
  -- The two systems differ in clock, log and names given out, so the induction
  -- carries that they have the same data and not that they are the same.
  induction moves generalizing o s with
  | nil => exact hs
  | cons move moves ih =>
      show System.SameData (s.serially desk readings
        ((o.committing? move).toList ++ (o.step desk move).commits desk moves)) _
      have hwhole' := (backend_step desk o move).trans hwhole
      cases hc : o.committing? move with
      | none => exact ih hwhole' (h.step htable move) (hs.trans (sameData_step hc))
      | some c =>
          obtain ⟨product, s', hrun, hsame⟩ := h.alone htable hwhole hgives hc
          have hcongr := (System.runAt_congr (readings c) (desk.process c.job) hs).2
          rw [hrun] at hcongr
          exact ih hwhole' (h.step htable move) (hcongr.trans hsame)

end Office

/-- In every run of an office that commits a set of changes as a whole, whatever
the clients do in whatever order, every commit does what its job does alone, and
the run as a whole does what the committed jobs do one after another. A job that
runs alone is given the times and the new names that its commit was prepared
from. -/
theorem commits_serializable (desk : Desk) (htable : desk.table = .standard) (s : System)
    (hwhole : s.backend = .whole) (hfiled : s.store.Filed) (readings : Client → Readings)
    (hgives : ∀ c, (readings c).Gives 0 (script c.journal)) (moves : List Move) :
    Serializable desk readings (.opening s) moves := by
  refine ⟨fun before move after c _ hc => ?_, ?_⟩
  · have h := Office.current_run htable hfiled before
    have hwhole' := (Office.backend_run desk (.opening s) before).trans hwhole
    obtain ⟨product, s', hrun, hsame⟩ := h.alone htable hwhole' hgives hc
    exact ⟨product, s', hrun, hsame.store.symm⟩
  · have h : (Office.opening s).Current desk := Office.current_run htable hfiled []
    exact (h.serial htable hgives moves hwhole (System.SameData.refl s)).store.symm

/-- Two versions of one document, taken from it as it was made: the second is taken
again, as the first was committed. -/
theorem commits_serializable_versions :
    let readings (c : Client) : Readings := .ofScript (script c.journal)
    let make : Job := .create none .unpublished .null "ann"
    let version (user : String) : Job := .call "a" user .version
    let step (client : Nat) : Move := .advance client .epoch ""
    let moves : List Move :=
      [.enter make, .advance 0 .epoch "a", .advance 0 .epoch "v", step 0, step 0,
        .enter (version "bob"), .enter (version "cy"), step 1, step 2, step 1, step 2,
        step 1, step 2, step 2, step 1, step 1, step 1, step 1, step 1]
    ((Office.opening {}).commits {} moves).map Client.job =
        [make, version "cy", version "bob"] ∧
      Serializable {} readings (.opening {}) moves := by
  intro readings make version step moves
  have hfiled : Store.Filed ({} : System).store := by
    intro id stored hget
    cases hget
  refine ⟨by decide +kernel, ?_⟩
  exact commits_serializable {} rfl {} rfl hfiled readings
    (fun c => Readings.gives_ofScript _) moves

end Editorial
