import Editorial.Proofs.Desk.Commits
import Editorial.Proofs.Office.Basic
import Editorial.Proofs.Store.Commit

/-!
# Every stored record is sound

The checks before a commit see the record in hand only, and between a load and a
commit other clients may do anything. Neither lets an unsound record into the
store: whatever is loaded was stored, and a desk that loads sound records
commits sound records, be its table as it may.

## Main results

* `stored_run_of_meets` — a property that the jobs of a run keep is one of all stored
  records.
* `stored_run` — a property that the checks make sure of and the tasks keep is
  one of all stored records, in every run of an office.
* `check_stored_run` — every stored record passes the checks.
-/

namespace Editorial

namespace Office

variable {P : Record → Prop} {desk : Desk} {o : Office}

/-! ## Steps and stored records -/

/-- What a step is told of the store has the property. -/
theorem loads_answer
    (hstored : ∀ id stored, o.system.store.get? id = some stored → P stored.record)
    (hreread : ∀ r, P r → P r.reread) (query : Query) (now : Instant) (name : String) :
    Taken.Loads P ⟨query, (o.answer query now name).1⟩ := by
  cases query with
  | load id =>
      intro loaded he
      obtain ⟨stored, hget, -, hrecord⟩ := Backend.load_cases he
      rcases hrecord with hrecord | hrecord
      · rw [hrecord]
        exact hstored id stored hget
      · rw [hrecord]
        exact hreread _ (hstored id stored hget)
  | now | fresh kind | find location | folder category container | commit changes
  | pause milliseconds | log notice => trivial

/-- What a step leaves in the store has the property if what it commits has. -/
theorem stored_answer
    (hstored : ∀ id stored, o.system.store.get? id = some stored → P stored.record)
    {query : Query} (hq : query.Commits P) (now : Instant) (name : String) :
    ∀ id stored, (o.answer query now name).2.store.get? id = some stored → P stored.record := by
  cases query with
  | commit changes =>
      intro id stored hget
      change (o.system.backend.commit o.system.store changes).2.get? id = some stored at hget
      rcases o.system.backend.commit_cases o.system.store changes with ⟨id', hc⟩ | hc
      · rw [hc] at hget
        exact hstored id stored hget
      · rw [hc] at hget
        rcases Store.get?_applyAll_cases hget with ⟨hget, -⟩ | ⟨change, hm, -, hresult⟩
        · exact hstored id stored hget
        · obtain ⟨expected, rfl⟩ := Change.record_of_result? hresult
          exact hq _ hm
  | now | fresh kind | load id | find location | folder category container | pause milliseconds
  | log notice => exact hstored

/-! ## Properties that are kept -/

/-- Every stored record has the property, and every client goes on to commit
only such records. -/
structure Keeps (P : Record → Prop) (o : Office) : Prop where
  stored : ∀ id stored, o.system.store.get? id = some stored → P stored.record
  clients : ∀ c ∈ o.clients,
    c.process.Meets (Query.Commits P) (Taken.Loads P) fun _ => True

theorem Keeps.step {move : Move} (hprocess : ∀ job, move = .enter job →
      (desk.process job).Meets (Query.Commits P) (Taken.Loads P) fun _ => True)
    (hreread : ∀ r, P r → P r.reread) (h : o.Keeps P) : (o.step desk move).Keeps P := by
  rcases step_cases desk o move with ⟨job, hmove, hstep⟩ | hstep |
    ⟨i, c, query, next, now, name, -, hc, hp, -, hstep⟩
  · rw [hstep]
    refine ⟨h.stored, fun c hm => ?_⟩
    rcases List.mem_append.1 hm with hm | hm
    · exact h.clients c hm
    · rw [List.mem_singleton.1 hm]
      exact hprocess job hmove
  · rw [hstep]
    exact h
  · rw [hstep]
    have hmeets := h.clients c (List.mem_of_getElem? hc)
    rw [hp] at hmeets
    refine ⟨stored_answer h.stored hmeets.1 now name, fun c' hm => ?_⟩
    rcases mem_clients_take hm with hm | rfl
    · exact h.clients c' hm
    · exact hmeets.2 _ (loads_answer h.stored hreread query now name)

/-- An office with such records that nobody has come to yet. -/
theorem keeps_opening {s : System}
    (hs : ∀ id stored, s.store.get? id = some stored → P stored.record) : (opening s).Keeps P :=
  ⟨hs, List.forall_mem_nil _⟩

/-- A property that the jobs of a run keep is one of all stored records, if it is one at
the beginning. -/
theorem stored_run_of_meets {moves : List Move} (hprocess : ∀ job, .enter job ∈ moves →
      (desk.process job).Meets (Query.Commits P) (Taken.Loads P) fun _ => True)
    (hreread : ∀ r, P r → P r.reread) {s : System}
    (hs : ∀ id stored, s.store.get? id = some stored → P stored.record) :
    ∀ id stored, ((opening s).run desk moves).system.store.get? id = some stored →
      P stored.record := by
  have hkeeps : ((opening s).run desk moves).Keeps P :=
    run_induction_of_mem (fun o move hm h => h.step (fun job he => hprocess job (he ▸ hm)) hreread)
      (keeps_opening hs)
  exact hkeeps.stored

/-- So is a property that the checks make sure of and the tasks keep. -/
theorem stored_run (hP : Record.Stageable P) (hcheck : ∀ r : Record, r.check = .ok () → P r)
    (hreread : ∀ r, P r → P r.reread) {s : System}
    (hs : ∀ id stored, s.store.get? id = some stored → P stored.record) (moves : List Move) :
    ∀ id stored, ((opening s).run desk moves).system.store.get? id = some stored →
      P stored.record :=
  stored_run_of_meets (fun job _ => Desk.meets_process hP hcheck desk job) hreread hs

end Office

/-- Every record in the store passes the checks, in every run of an office that
begins with such records: for every table and all settings, whatever the backend,
whoever the clients are and whatever they do in whatever order. -/
theorem check_stored_run (desk : Desk) (s : System)
    (hs : ∀ id stored, s.store.get? id = some stored → stored.record.check = .ok ())
    (moves : List Move) (id : String) (stored : Stored)
    (hstored : ((Office.opening s).run desk moves).system.store.get? id = some stored) :
    stored.record.check = .ok () := by
  rw [Record.check_eq_ok_iff]
  refine Office.stored_run Record.stageable_isSound (fun r => (Record.check_eq_ok_iff r).1)
    (fun _ => Record.IsSound.reread) (fun id stored h => ?_) moves id stored hstored
  exact (Record.check_eq_ok_iff _).1 (hs id stored h)

/-- A document made beside a stored one. -/
theorem check_stored_run_create :
    let new (id : String) : Record := .single id none (.make "v" .unpublished .null "ann" .epoch)
    let s : System := { store := Keyed.empty.insert "a" ⟨new "a", 1⟩ }
    let moves : List Move :=
      [.enter (.create none .unpublished .null "ann"), .advance 0 .epoch "b",
        .advance 0 .epoch "v", .advance 0 .epoch "", .advance 0 .epoch ""]
    (∀ id stored, s.store.get? id = some stored → stored.record.check = .ok ()) ∧
      ((Office.opening s).run {} moves).system.store.get? "b" = some ⟨new "b", 1⟩ ∧
      (new "b").check = .ok () := by
  intro new s moves
  have hs : ∀ id stored, s.store.get? id = some stored → stored.record.check = .ok () := by
    intro id stored h
    change (Keyed.empty.insert "a" ⟨new "a", 1⟩).get? id = some stored at h
    rw [Keyed.get?_insert] at h
    by_cases hid : id = "a"
    · rw [if_pos hid] at h
      cases h
      rfl
    · rw [if_neg hid] at h
      cases h
  have hstored : ((Office.opening s).run {} moves).system.store.get? "b" =
      some ⟨new "b", 1⟩ := by decide
  exact ⟨hs, hstored, check_stored_run {} s hs moves "b" _ hstored⟩

end Editorial
