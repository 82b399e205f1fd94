import Editorial.Proofs.Store.Places

/-!
# What is found in a place

A store in memory has no index of places. It looks through its records, which are
in no particular order, and answers with the id that the first record in the place
names. So the answer means something only if no two records are in one place and
every record is under the id it names; otherwise it could be the id of any of them,
or one that loads another record or none.

A commit has to see to that, and it is not obvious that it does. It judges every
change against the store as it was and makes the changes one after another, so if
a set is about one record several times, what was judged is not what is left. The
judgement is about ids: a place is free if everything in it belongs to ids the set
writes, and no two ids of the set are put in one place. The change that is made
last for an id is one of those that were judged, whatever came before it.

## Main results

* `Tidy.commitWhole` — one commit of any set of changes.
* `find?_exact` — after any commits, a place is answered with the record in it, in
  whatever order the records are gone through.
-/

namespace Editorial

namespace Store

variable {s : Store}

/-! ## Revisions -/

/-- A change made by a commit as a whole counts on from the revision that was there. -/
theorem Admitted.counts {changes : List Change} (ha : s.Admitted changes) {bound : Nat}
    (hs : ∀ id stored, s.get? id = some stored → 1 ≤ stored.revision ∧ stored.revision ≤ bound)
    {id : String} {stored : Stored} (hget : (s.applyAll changes).get? id = some stored) :
    1 ≤ stored.revision ∧ stored.revision ≤ bound + 1 := by
  rcases get?_applyAll_cases hget with ⟨hget, -⟩ | ⟨change, hm, rfl, hresult⟩
  · have hbefore := hs id stored hget
    omega
  · obtain ⟨expected, rfl⟩ := Change.record_of_result? hresult
    have hrevision : expected.elim 1 (· + 1) = stored.revision :=
      congrArg Stored.revision (Option.some.inj hresult)
    cases expected with
    | none =>
        have hnew : 1 = stored.revision := hrevision
        omega
    | some revision =>
        have hnext : revision + 1 = stored.revision := hrevision
        have hthere : s.revision? stored.record.id = some revision := ha.expected _ hm
        obtain ⟨before, hget, hat⟩ := Option.map_eq_some_iff.1 hthere
        have hbefore := hs _ _ hget
        omega

/-! ## Stores in order -/

/-- A store in which every record is under its own id, no two records are in one place
and every record was written, at most `commits` times. -/
structure Tidy (s : Store) (commits : Nat) : Prop where
  filed : s.Filed
  spread : s.Spread
  counted : ∀ id stored, s.get? id = some stored →
    1 ≤ stored.revision ∧ stored.revision ≤ commits

theorem tidy_empty : Tidy .empty 0 where
  filed := filed_of_empty rfl
  spread location id stored _ _ hget := by
    rw [Keyed.get?_empty] at hget
    cases hget
  counted id stored hget := by
    rw [Keyed.get?_empty] at hget
    cases hget

/-- A commit keeps a store in order, whatever the set of changes. -/
theorem Tidy.commitWhole {commits : Nat} (hs : s.Tidy commits) (changes : List Change) :
    (s.commitWhole changes).2.Tidy (commits + 1) := by
  refine ⟨hs.filed.commit .whole changes, hs.spread.commit .whole changes, ?_⟩
  intro id stored hget
  unfold Store.commitWhole at hget
  cases hc : s.conflict? changes with
  | some change =>
      rw [hc] at hget
      have hbefore := hs.counted id stored hget
      omega
  | none =>
      rw [hc] at hget
      exact (admitted_of_conflict? hc).counts hs.counted hget

/-- The store after commits of sets of changes, one after another. -/
def commits (s : Store) (sets : List (List Change)) : Store :=
  sets.foldl (fun s changes => (s.commitWhole changes).2) s

/-- A store stays in order over any commits. -/
theorem Tidy.commits {count : Nat} (hs : s.Tidy count) (sets : List (List Change)) :
    (s.commits sets).Tidy (count + sets.length) := by
  induction sets generalizing s count with
  | nil => exact hs
  | cons changes rest ih =>
      rw [List.length_cons, Nat.add_comm rest.length 1, ← Nat.add_assoc]
      exact ih (hs.commitWhole changes)

/-! ## Looking for a place -/

/-- The id that the first of `records` in a place names. -/
def scan (records : List (String × Stored)) (place : Location) : Option String :=
  (records.find? fun entry => entry.2.record.location = some place).map
    fun entry => entry.2.record.id

/-- Going through the records of a store in order finds the one in the place, in whatever
order they come. -/
theorem Tidy.scan_eq_some_iff {count : Nat} (hs : s.Tidy count) {records : List (String × Stored)}
    (hperm : records.Perm s.entries) (place : Location) (id : String) :
    scan records place = some id ↔
      ∃ stored, s.get? id = some stored ∧ stored.record.location = some place := by
  have hmem : ∀ {key : String} {stored : Stored}, (key, stored) ∈ records ↔
      s.get? key = some stored := fun {key stored} =>
    hperm.mem_iff.trans (Keyed.get?_eq_some_iff s key stored).symm
  constructor
  · intro h
    obtain ⟨⟨key, stored⟩, hfound, rfl⟩ := Option.map_eq_some_iff.1 h
    have hget : s.get? key = some stored := hmem.1 (List.mem_of_find?_eq_some hfound)
    refine ⟨stored, ?_, by simpa using List.find?_some hfound⟩
    show s.get? stored.record.id = some stored
    rw [hs.filed key stored hget]
    exact hget
  · rintro ⟨stored, hget, hplace⟩
    have hfinds : (records.find? fun entry => entry.2.record.location = some place).isSome :=
      List.find?_isSome.2 ⟨(id, stored), hmem.2 hget, by simpa using hplace⟩
    obtain ⟨⟨key, other⟩, hfound⟩ := Option.isSome_iff_exists.1 hfinds
    have hget' : s.get? key = some other := hmem.1 (List.mem_of_find?_eq_some hfound)
    have hplace' : other.record.location = some place := by simpa using List.find?_some hfound
    have hkey : key = id := hs.spread place key other id stored hget' hget hplace' hplace
    rw [scan, hfound, Option.map_some, hs.filed key other hget', hkey]

/-- A store in order finds the record in a place, and finds it whatever order it keeps its
records in. -/
theorem Tidy.find?_eq_some_iff {count : Nat} (hs : s.Tidy count) (place : Location) (id : String) :
    s.find? place = some id ↔
      ∃ stored, s.get? id = some stored ∧ stored.record.location = some place :=
  hs.scan_eq_some_iff (List.Perm.refl _) place id

theorem Tidy.scan_eq_find? {count : Nat} (hs : s.Tidy count) {records : List (String × Stored)}
    (hperm : records.Perm s.entries) (place : Location) : scan records place = s.find? place :=
  Option.ext fun id =>
    (hs.scan_eq_some_iff hperm place id).trans (hs.find?_eq_some_iff place id).symm

/-- After any commits to an empty store, every record is under its own id at a revision
that counts some of the commits, no two records are in one place, and a place is answered
with an id exactly if the record loaded for the id is in it; the answer is the same in
whatever order the records are gone through. -/
theorem find?_exact (sets : List (List Change)) :
    (commits .empty sets).Tidy sets.length ∧
      ∀ place,
        (∀ id, (commits .empty sets).find? place = some id ↔
          ∃ loaded, Backend.whole.load (commits .empty sets) id = .ok (some loaded) ∧
            loaded.record.location = some place) ∧
        ∀ records : List (String × Stored), records.Perm (commits .empty sets).entries →
          scan records place = (commits .empty sets).find? place := by
  have htidy : (commits .empty sets).Tidy sets.length := by
    have hfrom := tidy_empty.commits sets
    rwa [Nat.zero_add] at hfrom
  refine ⟨htidy, fun place => ⟨fun id => ?_, fun records hperm => htidy.scan_eq_find? hperm place⟩⟩
  simp only [Backend.load_whole_iff]
  exact htidy.find?_eq_some_iff place id

/-- One record is put twice and then deleted in a set that puts another in its place, and
in the next set it is deleted before it is put. -/
theorem find?_exact_repeated :
    let file (id name : String) : Record := ⟨id, some ⟨"news", name⟩, .empty, [], []⟩
    let sets : List (List Change) :=
      [[.put (file "a" "back") none, .put (file "a" "front") none, .put (file "c" "end") none],
        [.put (file "a" "middle") (some 1), .delete "a" 1, .put (file "b" "front") none],
        [.delete "c" 1, .put (file "c" "front") (some 1), .put (file "c" "back") (some 1)],
        [.delete "b" 1, .put (file "c" "front") (some 1), .put (file "b" "back") (some 1)]]
    let s := commits .empty sets
    s.entries.reverse.Perm s.entries ∧ s.entries.length = 2 ∧
      s.find? ⟨"news", "front"⟩ = some "c" ∧
      scan s.entries.reverse ⟨"news", "front"⟩ = some "c" := by
  intro file sets s
  have hperm : s.entries.reverse.Perm s.entries := List.reverse_perm _
  have hthere : (s.get? "c").map (·.record.location) = some (some ⟨"news", "front"⟩) := by
    decide +kernel
  obtain ⟨stored, hget, hplace⟩ := Option.map_eq_some_iff.1 hthere
  obtain ⟨hexact, horder⟩ := (find?_exact sets).2 ⟨"news", "front"⟩
  have hfound : s.find? ⟨"news", "front"⟩ = some "c" :=
    (hexact "c").2 ⟨stored, Backend.load_whole_iff.2 hget, hplace⟩
  exact ⟨hperm, by decide +kernel, hfound, (horder _ hperm).trans hfound⟩

end Store

end Editorial
