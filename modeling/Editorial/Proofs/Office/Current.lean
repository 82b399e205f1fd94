import Editorial.Proofs.Desk.Committing
import Editorial.Proofs.Office.Basic
import Editorial.Proofs.Pipeline.Filing
import Editorial.Proofs.Store.Places

/-!
# What clients know is current or found out

A client goes on from records that it loaded some time ago. As long as the store
has such a record at the revision at which it was loaded, it is the same record:
a commit counts revisions up, and an id that was removed does not come back, as
new records get new names. A new name in turn is known to one client alone until
that client commits it.

## Main results

* `current_run` — all this holds in every run of an office.
-/

namespace Editorial

/-! ## Names not yet committed -/

/-- The names a client holds after a step: a commit uses them all up. -/
def Taken.holding (names : List String) : Taken → List String
  | ⟨.fresh _, name⟩ => name :: names
  | ⟨.commit _, _⟩ => []
  | _ => names

/-- The names that were given since the last commit. -/
def unused (journal : List Taken) : List String := journal.foldl Taken.holding []

theorem unused_concat (journal : List Taken) (t : Taken) :
    unused (journal ++ [t]) = t.holding (unused journal) := by
  unfold unused
  rw [List.foldl_append]
  rfl

/-- A name that is held after a step was held before or was given in it. -/
theorem Taken.mem_holding {names : List String} {t : Taken} {name : String}
    (h : name ∈ t.holding names) : name ∈ names ∨ ∃ kind, t = .fresh kind name := by
  rcases t with ⟨query, answer⟩
  cases query with
  | fresh kind =>
      rcases List.mem_cons.1 h with rfl | h
      · exact Or.inr ⟨kind, rfl⟩
      · exact Or.inl h
  | commit changes => cases h
  | now | load id | find location | folder category container | pause milliseconds
  | log notice => exact Or.inl h

/-- Names given in the steps of a journal after which there is no commit are
among those not used. -/
theorem mem_unused {journal path : List Taken} {kind : NameKind} {name : String}
    (hm : .fresh kind name ∈ path) (hreads : ∀ t ∈ path, t.query.IsReading) :
    name ∈ unused (journal ++ path) := by
  have hkeep : ∀ (path : List Taken) (names : List String),
      (∀ t ∈ path, t.query.IsReading) → name ∈ names → name ∈ path.foldl Taken.holding names := by
    intro path
    induction path with
    | nil => exact fun _ _ hn => hn
    | cons t path ih =>
        intro names hreads hn
        refine ih _ (fun t' hm' => hreads t' (List.mem_cons_of_mem _ hm')) ?_
        have hread := hreads t (List.mem_cons_self ..)
        rcases t with ⟨query, answer⟩
        cases query with
        | fresh kind => exact List.mem_cons_of_mem _ hn
        | commit changes => exact False.elim hread
        | now | load id | find location | folder category container | pause milliseconds
        | log notice => exact hn
  obtain ⟨before, after, rfl⟩ := List.append_of_mem hm
  unfold unused
  rw [List.foldl_append, List.foldl_append, List.foldl_cons]
  refine hkeep after _ (fun t hm' => hreads t ?_) (List.mem_cons_self ..)
  exact List.mem_append_right _ (List.mem_cons_of_mem _ hm')

/-- A record that is committed as a new one has a name that is not used yet. -/
theorem Desk.Committing.mem_unused {desk : Desk} (htable : desk.table = .standard) {job : Job}
    {journal : List Taken} {changes : List Change} (hc : desk.Committing job journal changes)
    {change : Change} (hm : change ∈ changes) (hnew : change.expected? = none) :
    change.id ∈ unused journal := by
  cases hc with
  | @call id user call opening lost last op arguments _ t hopens hlost hprepares hsettles =>
      rw [← List.append_assoc]
      have hreads := hprepares.isReading htable
      cases hprepares with
      | loaded hallows heffect hchanges =>
          have hstaged : change ∈ t.staged := by
            obtain ⟨first, rfl, hexpected⟩ := Desk.exists_first hchanges
            rcases List.mem_cons.1 hm with rfl | hm
            · rw [hnew] at hexpected
              cases hexpected
            · exact hm
          have hfresh := heffect.fresh_of_staged hstaged hnew
          exact Editorial.mem_unused (List.mem_cons_of_mem _ hfresh) hreads
  | create hnamed hsettles =>
      rw [List.mem_singleton.1 hm]
      exact List.mem_cons_of_mem _ (List.mem_cons_self ..)

namespace Office

/-- Some client was told this. -/
def Tells (o : Office) (t : Taken) : Prop := ∃ c ∈ o.clients, t ∈ c.journal

/-- Client number `i` holds a new name. -/
def Holds (o : Office) (i : Nat) (name : String) : Prop :=
  ∃ c, o.clients[i]? = some c ∧ name ∈ unused c.journal

/-- What clients know is current, or a commit finds out that it is not. -/
structure Current (desk : Desk) (o : Office) : Prop where
  filed : o.system.store.Filed
  traces : ∀ c ∈ o.clients, Client.Traces desk c
  stored : ∀ id stored, o.system.store.get? id = some stored → id ∈ o.names
  /-- A loaded record is outdated by its revision, or it is as it was. -/
  loaded : ∀ id loaded, o.Tells (.load id (some loaded)) →
    id ∈ o.names ∧ loaded.record.id = id ∧
      ∀ stored, o.system.store.get? id = some stored →
        loaded.revision < stored.revision ∨ o.system.backend.handOut? stored = .ok loaded
  /-- A new name is not the id of a record. -/
  held : ∀ i name, o.Holds i name →
    name ∈ o.names ∧ o.system.store.get? name = none ∧
      ∀ loaded, ¬ o.Tells (.load name (some loaded))
  /-- No two clients hold the same name. -/
  apart : ∀ i j name, o.Holds i name → o.Holds j name → i = j
  /-- The folders are as they were. -/
  folders : ∀ category container answer, o.Tells ⟨.folder category container, answer⟩ →
    answer = .ok (o.system.folders.folder? category container)

variable {desk : Desk} {o : Office} {i : Nat} {c : Client} {query : Query}
  {next : query.Answer → Process (Except Failure Product)} {now : Instant} {name : String}

/-! ## A step -/

theorem tells_take (hc : o.clients[i]? = some c) {t : Taken}
    (h : (o.take i c query next now name).Tells t) :
    o.Tells t ∨ t = ⟨query, (o.answer query now name).1⟩ := by
  obtain ⟨c', hm, ht⟩ := h
  rcases mem_clients_take hm with hm | rfl
  · exact Or.inl ⟨c', hm, ht⟩
  · rcases List.mem_append.1 ht with ht | ht
    · exact Or.inl ⟨c, List.mem_of_getElem? hc, ht⟩
    · exact Or.inr (List.mem_singleton.1 ht)

theorem holds_take (hc : o.clients[i]? = some c) {j : Nat} {held : String}
    (h : (o.take i c query next now name).Holds j held) :
    (j ≠ i ∧ o.Holds j held) ∨ (j = i ∧
      held ∈ Taken.holding (unused c.journal) ⟨query, (o.answer query now name).1⟩) := by
  obtain ⟨c', hc', hheld⟩ := h
  change (o.clients.set i _)[j]? = some c' at hc'
  by_cases hj : j = i
  · subst hj
    have hlt : j < o.clients.length := (List.getElem?_eq_some_iff.1 hc).1
    rw [List.getElem?_set_self hlt] at hc'
    cases hc'
    rw [unused_concat] at hheld
    exact Or.inr ⟨rfl, hheld⟩
  · rw [List.getElem?_set_ne (fun he => hj he.symm)] at hc'
    exact Or.inl ⟨hj, c', hc', hheld⟩

/-- What was told stays told. -/
theorem Tells.step {t : Taken} (h : o.Tells t) (desk : Desk) (move : Move) :
    (o.step desk move).Tells t := by
  obtain ⟨c, hm, ht⟩ := h
  rcases step_cases desk o move with ⟨job, -, hstep⟩ | hstep |
    ⟨i, c', query, next, now, name, -, hc', -, -, hstep⟩
  · rw [hstep]
    exact ⟨c, List.mem_append_left _ hm, ht⟩
  · rw [hstep]
    exact ⟨c, hm, ht⟩
  · rw [hstep]
    obtain ⟨j, hj⟩ := List.getElem?_of_mem hm
    by_cases hji : j = i
    · subst hji
      rw [hc'] at hj
      cases hj
      have hlt : j < o.clients.length := (List.getElem?_eq_some_iff.1 hc').1
      exact ⟨_, List.mem_of_getElem? (List.getElem?_set_self hlt), List.mem_append_left _ ht⟩
    · have hstays : (o.take i c' query next now name).clients[j]? = some c :=
        (List.getElem?_set_ne (Ne.symm hji)).trans hj
      exact ⟨c, List.mem_of_getElem? hstays, ht⟩

/-- A client that comes was told nothing. -/
theorem tells_enter {job : Job} {t : Taken} (h : (o.step desk (.enter job)).Tells t) :
    o.Tells t := by
  obtain ⟨c, hm, ht⟩ := h
  rcases List.mem_append.1 hm with hm | hm
  · exact ⟨c, hm, ht⟩
  · rw [List.mem_singleton.1 hm] at ht
    cases ht

/-- A client that comes holds no name. -/
theorem holds_enter {job : Job} {j : Nat} {held : String}
    (h : (o.step desk (.enter job)).Holds j held) : o.Holds j held := by
  obtain ⟨c, hc, hheld⟩ := h
  change (o.clients ++ [⟨job, [], desk.process job⟩])[j]? = some c at hc
  rw [List.getElem?_append] at hc
  by_cases hj : j < o.clients.length
  · rw [if_pos hj] at hc
    exact ⟨c, hc, hheld⟩
  · rw [if_neg hj] at hc
    rw [List.mem_singleton.1 (List.mem_of_getElem? hc)] at hheld
    cases hheld

/-- What is loaded is what the store has. -/
theorem get?_of_answer {id : String} {loaded : Stored}
    (he : (⟨query, (o.answer query now name).1⟩ : Taken) = .load id (some loaded)) :
    ∃ stored, o.system.store.get? id = some stored ∧
      o.system.backend.handOut? stored = .ok loaded := by
  cases query with
  | load id' =>
      injection he with hquery hanswer
      cases hquery
      exact Backend.load_eq_some_iff.1 hanswer
  | now | fresh kind | find location | folder category container | commit changes
  | pause milliseconds | log notice => cases he

/-- What is looked up is what is registered. -/
theorem folder?_of_answer {category container : String} {answer : Except Failure (Option Folder)}
    (he : (⟨query, (o.answer query now name).1⟩ : Taken) = ⟨.folder category container, answer⟩) :
    answer = .ok (o.system.folders.folder? category container) := by
  cases query with
  | folder category' container' =>
      injection he with hquery hanswer
      cases hquery
      exact hanswer.symm
  | now | fresh kind | load id | find location | commit changes | pause milliseconds
  | log notice => cases he

theorem folders_answer (o : Office) (query : Query) (now : Instant) (name : String) :
    (o.answer query now name).2.folders = o.system.folders := by
  cases query <;> rfl

theorem backend_answer (o : Office) (query : Query) (now : Instant) (name : String) :
    (o.answer query now name).2.backend = o.system.backend := by
  cases query <;> rfl

/-- The backend stays. -/
theorem backend_step (desk : Desk) (o : Office) (move : Move) :
    (o.step desk move).system.backend = o.system.backend := by
  rcases step_cases desk o move with ⟨job, -, hstep⟩ | hstep |
    ⟨i, c, query, next, now, name, -, -, -, -, hstep⟩
  · rw [hstep]
  · rw [hstep]
  · rw [hstep]
    exact backend_answer o query now name

theorem backend_run (desk : Desk) (o : Office) (moves : List Move) :
    (o.run desk moves).system.backend = o.system.backend :=
  run_induction (fun o' move h => (backend_step desk o' move).trans h) rfl moves

namespace Current

/-- A client that is about to commit has prepared the commit. -/
theorem committing (h : o.Current desk) (htable : desk.table = .standard) (hc : c ∈ o.clients)
    {changes : List Change} {next : Except Failure Verdict → Process (Except Failure Product)}
    (hp : c.process = .ask (.commit changes) next) :
    desk.Committing c.job c.journal changes :=
  Desk.committing_of_reaches htable ((h.traces c hc).reaches hp)

/-- A loaded record is still accounted for after a step that commits nothing. -/
theorem loaded_take (h : o.Current desk) (hc : o.clients[i]? = some c)
    (hstore : (o.answer query now name).2.store = o.system.store) (id : String) (loaded : Stored)
    (ht : (o.take i c query next now name).Tells (.load id (some loaded))) :
    id ∈ o.names ∧ loaded.record.id = id ∧
      ∀ stored, (o.answer query now name).2.store.get? id = some stored →
        loaded.revision < stored.revision ∨
          (o.answer query now name).2.backend.handOut? stored = .ok loaded := by
  rw [hstore, backend_answer]
  rcases tells_take hc ht with ht | he
  · exact h.loaded id loaded ht
  · obtain ⟨there, hget, hout⟩ := get?_of_answer he.symm
    refine ⟨h.stored id there hget, ?_, fun stored hstored => Or.inr ?_⟩
    · obtain ⟨-, rfl⟩ := Backend.handOut?_eq_ok_iff.1 hout
      rw [Backend.id_handsOut]
      exact h.filed id there hget
    · rw [hget] at hstored
      rwa [← Option.some.inj hstored]

theorem folders_take (h : o.Current desk) (hc : o.clients[i]? = some c)
    (category container : String) (answer : Except Failure (Option Folder))
    (ht : (o.take i c query next now name).Tells ⟨.folder category container, answer⟩) :
    answer = .ok ((o.answer query now name).2.folders.folder? category container) := by
  rw [folders_answer]
  rcases tells_take hc ht with ht | he
  · exact h.folders category container answer ht
  · exact folder?_of_answer he.symm

/-- A client that neither commits nor is given a name. -/
theorem take_quiet (h : o.Current desk) (hc : o.clients[i]? = some c)
    (htraces : ∀ c' ∈ (o.take i c query next now name).clients, Client.Traces desk c')
    (hcommit : ∀ changes, query ≠ .commit changes) (hfresh : ∀ kind, query ≠ .fresh kind) :
    (o.take i c query next now name).Current desk := by
  have hstore : (o.answer query now name).2.store = o.system.store := by
    cases query <;> first | rfl | exact absurd rfl (hcommit _)
  have hnames : o.namesAfter query name = o.names := by
    cases query <;> first | rfl | exact absurd rfl (hfresh _)
  have hholds : ∀ j held, (o.take i c query next now name).Holds j held → o.Holds j held := by
    intro j held hh
    rcases holds_take hc hh with ⟨-, hh⟩ | ⟨rfl, hheld⟩
    · exact hh
    · refine ⟨c, hc, ?_⟩
      cases query <;>
        first | exact hheld | exact absurd rfl (hcommit _) | exact absurd rfl (hfresh _)
  refine ⟨?_, htraces, ?_, ?_, ?_, ?_, h.folders_take hc⟩
  · show (o.answer query now name).2.store.Filed
    rw [hstore]
    exact h.filed
  · show ∀ id stored, (o.answer query now name).2.store.get? id = some stored →
      id ∈ o.namesAfter query name
    rw [hstore, hnames]
    exact h.stored
  · intro id loaded ht
    show id ∈ o.namesAfter query name ∧ _
    rw [hnames]
    exact h.loaded_take hc hstore id loaded ht
  · intro j held hh
    obtain ⟨hknown, hnone, hnever⟩ := h.held j held (hholds j held hh)
    show held ∈ o.namesAfter query name ∧ (o.answer query now name).2.store.get? held = none ∧ _
    rw [hnames, hstore]
    refine ⟨hknown, hnone, fun loaded ht => ?_⟩
    rcases tells_take hc ht with ht | he
    · exact hnever loaded ht
    · obtain ⟨stored, hget, -⟩ := get?_of_answer he.symm
      rw [hget] at hnone
      cases hnone
  · intro j k held hj hk
    exact h.apart j k held (hholds j held hj) (hholds k held hk)

/-- A client that is given a name which was not in use. -/
theorem take_fresh (h : o.Current desk) (hc : o.clients[i]? = some c) {kind : NameKind}
    {next : String → Process (Except Failure Product)}
    (htraces : ∀ c' ∈ (o.take i c (.fresh kind) next now name).clients, Client.Traces desk c')
    (hr : o.refuses (.fresh kind) name = false) :
    (o.take i c (.fresh kind) next now name).Current desk := by
  have hnew : name ∉ o.names := not_mem_of_refuses hr
  have hnames : o.names ⊆ name :: o.names := List.subset_cons_self _ _
  have htells : ∀ id loaded, (o.take i c (.fresh kind) next now name).Tells
      (.load id (some loaded)) → o.Tells (.load id (some loaded)) := by
    intro id loaded ht
    rcases tells_take hc ht with ht | he
    · exact ht
    · cases he
  have hholds : ∀ j held, (o.take i c (.fresh kind) next now name).Holds j held →
      o.Holds j held ∨ (j = i ∧ held = name) := by
    intro j held hh
    rcases holds_take hc hh with ⟨-, hh⟩ | ⟨rfl, hheld⟩
    · exact Or.inl hh
    · rcases List.mem_cons.1 hheld with rfl | hheld
      · exact Or.inr ⟨rfl, rfl⟩
      · exact Or.inl ⟨c, hc, hheld⟩
  refine ⟨h.filed, htraces, fun id stored hget => hnames (h.stored id stored hget), ?_, ?_, ?_,
    h.folders_take hc⟩
  · intro id loaded ht
    obtain ⟨hknown, hid, hcurrent⟩ := h.loaded id loaded (htells id loaded ht)
    exact ⟨hnames hknown, hid, hcurrent⟩
  · intro j held hh
    rcases hholds j held hh with hh | ⟨-, rfl⟩
    · obtain ⟨hknown, hnone, hnever⟩ := h.held j held hh
      exact ⟨hnames hknown, hnone, fun loaded ht => hnever loaded (htells held loaded ht)⟩
    · refine ⟨List.mem_cons_self .., ?_, fun loaded ht => ?_⟩
      · cases hget : o.system.store.get? held with
        | none => exact hget
        | some stored => exact absurd (h.stored held stored hget) hnew
      · exact hnew (h.loaded held loaded (htells held loaded ht)).1
  · intro j k held hj hk
    rcases hholds j held hj with hj' | ⟨rfl, rfl⟩
    · rcases hholds k held hk with hk' | ⟨rfl, rfl⟩
      · exact h.apart j k held hj' hk'
      · exact absurd (h.held j held hj').1 hnew
    · rcases hholds k held hk with hk' | ⟨rfl, -⟩
      · exact absurd (h.held k held hk').1 hnew
      · rfl

/-- A client commits changes to different records: a copy has a new name, which is
not the id of a record that was loaded, and no record is loaded besides itself. -/
theorem nodup_committing (h : o.Current desk) (htable : desk.table = .standard)
    (hc : o.clients[i]? = some c) {changes : List Change}
    {next : Except Failure Verdict → Process (Except Failure Product)}
    (hp : c.process = .ask (.commit changes) next) : (changes.map Change.id).Nodup := by
  have htold : ∀ step ∈ c.journal, o.Tells step := fun step hm => ⟨c, List.mem_of_getElem? hc, hm⟩
  have hnew : ∀ {change}, change ∈ changes → change.expected? = none →
      ∀ loaded, ¬ o.Tells (.load change.id (some loaded)) := fun hm hnone =>
    (h.held i _ ⟨c, hc, (h.committing htable (List.mem_of_getElem? hc) hp).mem_unused htable hm
      hnone⟩).2.2
  have hcommitting := h.committing htable (List.mem_of_getElem? hc) hp
  generalize c.job = job at hcommitting
  generalize c.journal = journal at hcommitting htold
  cases hcommitting with
  | create hnamed hsettles => exact List.nodup_singleton _
  | @call id user call opening lost last op arguments _ t hopens hlost hprepares hsettles =>
      have htold : ∀ step ∈ last, o.Tells step := fun step hm =>
        htold step (List.mem_append_right _ (List.mem_append_right _ hm))
      cases hprepares with
      | @loaded stored path r _ _ hallows heffect hchanges =>
          have hload := htold _ (List.mem_cons_self ..)
          have hid : stored.record.id = id := (h.loaded id stored hload).2.1
          obtain ⟨first, rfl, hfirst, -⟩ := Desk.exists_head hchanges (heffect.id_eq.trans hid)
          have hplaces := heffect.places
          change ∀ {change}, change ∈ first :: t.staged → _ at hnew
          show ((first :: t.staged).map Change.id).Nodup
          generalize r.location = location at hplaces
          generalize t.staged = staged at hplaces hnew
          cases hplaces with
          | stays | moves => exact List.nodup_singleton _
          | @copies place found record hop hplace hfind hfree hfresh hlocation =>
              refine List.nodup_cons.2 ⟨fun hm => ?_, List.nodup_singleton _⟩
              have hsame : first.id = record.id := List.mem_singleton.1 hm
              refine hnew (List.mem_cons_of_mem _ (List.mem_singleton.2 rfl)) rfl stored ?_
              rw [show (Change.put record none).id = id from hsame.symm.trans hfirst]
              exact hload
          | @restores target other record hm hrecord hlocation =>
              refine List.nodup_cons.2 ⟨fun hm' => ?_, List.nodup_singleton _⟩
              have hsame : first.id = record.id := List.mem_singleton.1 hm'
              have hother : other.record.id = target :=
                (h.loaded target other (htold _ (List.mem_cons_of_mem _ hm))).2.1
              refine heffect.id_ne_of_load hm ?_
              rw [← hother, ← hrecord, ← hsame, hfirst]
              exact hid.symm

/-- A record in the store after a commit was there before, or replaced one at a
lower revision, or is stored under a name that the client held. -/
theorem get?_commit (h : o.Current desk) (htable : desk.table = .standard)
    (hc : o.clients[i]? = some c) {changes : List Change}
    {next : Except Failure Verdict → Process (Except Failure Product)}
    (hp : c.process = .ask (.commit changes) next) {id : String} {stored : Stored}
    (hget : (o.system.backend.commit o.system.store changes).2.get? id = some stored) :
    o.system.store.get? id = some stored ∨
      (∃ old, o.system.store.get? id = some old ∧ old.revision < stored.revision) ∨
      o.Holds i id := by
  rcases o.system.backend.commit_cases o.system.store changes with ⟨other, hcommit⟩ | hcommit
  · rw [hcommit] at hget
    exact Or.inl hget
  · have hcurrent := Store.expected_of_commit o.system.backend (h.nodup_committing htable hc hp)
      (congrArg Prod.fst hcommit)
    rw [hcommit] at hget
    rcases Store.get?_applyAll_cases hget with ⟨hget, -⟩ | ⟨change, hm, rfl, hresult⟩
    · exact Or.inl hget
    · have hexpected := hcurrent change hm
      cases hnew : change.expected? with
      | none =>
          have hcommitting := h.committing htable (List.mem_of_getElem? hc) hp
          exact Or.inr (Or.inr ⟨c, hc, hcommitting.mem_unused htable hm hnew⟩)
      | some revision =>
          rw [hnew] at hexpected
          obtain ⟨old, hold, rfl⟩ := Option.map_eq_some_iff.1 hexpected
          refine Or.inr (Or.inl ⟨old, hold, ?_⟩)
          obtain ⟨expected, rfl⟩ := Change.record_of_result? hresult
          cases hnew
          have hrevision : old.revision + 1 = stored.revision :=
            congrArg Stored.revision (Option.some.inj hresult)
          omega

/-- A client that commits. -/
theorem take_commit (h : o.Current desk) (htable : desk.table = .standard)
    (hc : o.clients[i]? = some c) {changes : List Change}
    {next : Except Failure Verdict → Process (Except Failure Product)}
    (hp : c.process = .ask (.commit changes) next)
    (htraces : ∀ c' ∈ (o.take i c (.commit changes) next now name).clients,
      Client.Traces desk c') :
    (o.take i c (.commit changes) next now name).Current desk := by
  have htells : ∀ id loaded, (o.take i c (.commit changes) next now name).Tells
      (.load id (some loaded)) → o.Tells (.load id (some loaded)) := by
    intro id loaded ht
    rcases tells_take hc ht with ht | he
    · exact ht
    · cases he
  have hholds : ∀ j held, (o.take i c (.commit changes) next now name).Holds j held →
      j ≠ i ∧ o.Holds j held := by
    intro j held hh
    rcases holds_take hc hh with hh | ⟨-, hheld⟩
    · exact hh
    · cases hheld
  refine ⟨h.filed.commit _ changes, htraces, fun id stored hget => ?_,
    fun id loaded ht => ?_, fun j held hh => ?_, fun j k held hj hk => ?_, h.folders_take hc⟩
  · rcases h.get?_commit htable hc hp hget with hget | ⟨old, hold, -⟩ | hh
    · exact h.stored id stored hget
    · exact h.stored id old hold
    · exact (h.held i id hh).1
  · obtain ⟨hknown, hid, hcurrent⟩ := h.loaded id loaded (htells id loaded ht)
    refine ⟨hknown, hid, fun stored hget => ?_⟩
    rcases h.get?_commit htable hc hp hget with hget | ⟨old, hold, hlt⟩ | hh
    · exact hcurrent stored hget
    · rcases hcurrent old hold with hlt' | hout
      · exact Or.inl (Nat.lt_trans hlt' hlt)
      · obtain ⟨-, rfl⟩ := Backend.handOut?_eq_ok_iff.1 hout
        exact Or.inl (by rwa [Backend.revision_handsOut])
    -- A new record cannot take the place of one that was loaded and removed, as the
    -- name would have been in use when the client got it.
    · exact absurd (htells id loaded ht) ((h.held i id hh).2.2 loaded)
  · obtain ⟨hne, hh⟩ := hholds j held hh
    obtain ⟨hknown, hnone, hnever⟩ := h.held j held hh
    refine ⟨hknown, ?_, fun loaded ht => hnever loaded (htells held loaded ht)⟩
    show (o.system.backend.commit o.system.store changes).2.get? held = none
    cases hget : (o.system.backend.commit o.system.store changes).2.get? held with
    | none => rfl
    | some stored =>
        rcases h.get?_commit htable hc hp hget with hget | ⟨old, hold, -⟩ | hh'
        · rw [hnone] at hget
          cases hget
        · rw [hnone] at hold
          cases hold
        · exact absurd (h.apart j i held hh hh') hne
  · exact h.apart j k held (hholds j held hj).2 (hholds k held hk).2

/-- A client that comes knows nothing yet. -/
theorem enter (h : o.Current desk) (job : Job) :
    Current desk { o with clients := o.clients ++ [⟨job, [], desk.process job⟩] } := by
  refine ⟨h.filed, ?_, h.stored, fun id loaded ht => h.loaded id loaded (tells_enter ht),
    fun j held hh => ?_,
    fun j k held hj hk => h.apart j k held (holds_enter hj) (holds_enter hk),
    fun category container answer ht => h.folders category container answer (tells_enter ht)⟩
  · intro c hm
    rcases List.mem_append.1 hm with hm | hm
    · exact h.traces c hm
    · rw [List.mem_singleton.1 hm]
      exact rfl
  · obtain ⟨hknown, hnone, hnever⟩ := h.held j held (holds_enter hh)
    exact ⟨hknown, hnone, fun loaded ht => hnever loaded (tells_enter ht)⟩

theorem step (h : o.Current desk) (htable : desk.table = .standard) (move : Move) :
    (o.step desk move).Current desk := by
  have htraces := traces_step o move h.traces
  rcases step_cases desk o move with ⟨job, -, hstep⟩ | hstep |
    ⟨i, c, query, next, now, name, -, hc, hp, hr, hstep⟩
  · rw [hstep]
    exact h.enter job
  · rw [hstep]
    exact h
  · rw [hstep] at htraces ⊢
    cases query with
    | commit changes => exact h.take_commit htable hc hp htraces
    | fresh kind => exact h.take_fresh hc htraces hr
    | now | load id | find location | folder category container | pause milliseconds
    | log notice => exact h.take_quiet hc htraces (by simp) (by simp)

end Current

/-- What clients know is current or found out, in every run of an office that
begins with records under their ids. -/
theorem current_run (htable : desk.table = .standard) {s : System} (hfiled : s.store.Filed)
    (moves : List Move) : ((opening s).run desk moves).Current desk := by
  refine run_induction (fun o move h => h.step htable move) ?_ moves
  refine ⟨hfiled, fun c hm => ?_, fun id stored hget => ?_, ?_, ?_, ?_, ?_⟩
  · cases hm
  · exact List.mem_map.2 ⟨(id, stored), (Keyed.get?_eq_some_iff s.store id stored).1 hget, rfl⟩
  · rintro id loaded ⟨c, hm, -⟩
    cases hm
  · rintro j held ⟨c, hc, -⟩
    cases hc
  · rintro j k held ⟨c, hc, -⟩
    cases hc
  · rintro category container answer ⟨c, hm, -⟩
    cases hm

end Office

end Editorial
