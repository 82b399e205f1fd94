import Editorial.Proofs.Store.Found

/-!
# What a revision says about a record

Whoever has loaded a record at some revision and commits a change that expects it relies
on the revision to tell whether the record is still the one that was loaded. It does so
as long as the id stays in the store. Every commit that writes a record, however many
changes of the set are about it, puts it at the revision after the one that was there, so
the revision says how far the record has come and never falls back.

Once the id is removed this is lost. Nothing is kept of a removed record, and the id is
free for a new one, which starts at revision 1 again. The new record comes to the revision
that was loaded, and a change made for the old one is then made to the new one.

## Main results

* `get?_commitWhole_cases` — what one commit does to a record.
* `grows_of_contains` — what any commits do to a record that stays.
* `revision_identifies` — a revision identifies the record of an id that stays.
* `revision_returns` — a removed id comes back at the revision that was loaded.
-/

namespace Editorial

namespace Store

variable {s : Store}

/-- A commit leaves a record alone, removes it, or writes it at the next revision. -/
theorem get?_commitWhole_cases (s : Store) (changes : List Change) (id : String) :
    (s.commitWhole changes).2.get? id = s.get? id ∨ (s.commitWhole changes).2.get? id = none ∨
      ∃ record, (s.commitWhole changes).2.get? id =
        some ⟨record, (s.revision? id).elim 1 (· + 1)⟩ := by
  unfold commitWhole
  cases hc : s.conflict? changes with
  | some change => exact Or.inl rfl
  | none =>
      rcases s.get?_applyAll changes id with ⟨hget, -⟩ | ⟨change, hm, rfl, hget⟩
      · exact Or.inl hget
      · have hexpected := (admitted_of_conflict? hc).expected change hm
        cases change with
        | delete id expected => exact Or.inr (Or.inl hget)
        | put record expected =>
            refine Or.inr (Or.inr ⟨record, hget.trans ?_⟩)
            rw [hexpected]
            rfl

/-- A record that is there after each of some commits is the one it was before them, or is
at a later revision. -/
theorem grows_of_contains {sets : List (List Change)} {id : String} {loaded : Stored}
    (hget : s.get? id = some loaded)
    (hstays : ∀ n, (s.commits (sets.take n)).contains id = true) :
    ∃ stored, (s.commits sets).get? id = some stored ∧
      (stored = loaded ∨ loaded.revision < stored.revision) := by
  induction sets generalizing s loaded with
  | nil => exact ⟨loaded, hget, Or.inl rfl⟩
  | cons changes rest ih =>
      -- After the first commit the record is `loaded` or at the revision after its own.
      obtain ⟨next, hnext, hgrows⟩ : ∃ next, (s.commitWhole changes).2.get? id = some next ∧
          (next = loaded ∨ next.revision = loaded.revision + 1) := by
        obtain ⟨next, hnext⟩ := Option.isSome_iff_exists.1 (hstays 1)
        change (s.commitWhole changes).2.get? id = some next at hnext
        refine ⟨next, hnext, ?_⟩
        rcases s.get?_commitWhole_cases changes id with hsame | hnone | ⟨record, hwritten⟩
        · exact Or.inl (Option.some.inj (hnext.symm.trans (hsame.trans hget)))
        · cases hnext.symm.trans hnone
        · rw [revision?_of_get? hget] at hwritten
          rw [Option.some.inj (hnext.symm.trans hwritten)]
          exact Or.inr rfl
      obtain ⟨stored, hstored, hlater⟩ := ih hnext fun n => hstays (n + 1)
      refine ⟨stored, hstored, ?_⟩
      rcases hgrows with rfl | hgrows
      · exact hlater
      · rcases hlater with rfl | hlater
        · exact Or.inr (by omega)
        · exact Or.inr (by omega)

/-- A record was loaded after some commits to an empty store and its id was in the store
after each of the commits since then. Its revision has not fallen back, and at the same
revision it is the same record. So if a commit succeeds now that expects the revision
that was loaded, then it finds the record that was loaded. -/
theorem revision_identifies (past since : List (List Change)) {id : String} {loaded : Stored}
    (hload : Backend.whole.load (commits .empty past) id = .ok (some loaded))
    (hstays : ∀ n, (commits .empty (past ++ since.take n)).contains id = true) :
    (∀ stored, Backend.whole.load (commits .empty (past ++ since)) id = .ok (some stored) →
      loaded.revision ≤ stored.revision ∧
        (stored.revision = loaded.revision → stored = loaded)) ∧
    ∀ changes, ((commits .empty (past ++ since)).commitWhole changes).1 = .committed →
      (∃ change ∈ changes, change.id = id ∧ change.expected? = some loaded.revision) →
        Backend.whole.load (commits .empty (past ++ since)) id = .ok (some loaded) := by
  have hconcat : ∀ sets, commits .empty (past ++ sets) = commits (commits .empty past) sets :=
    fun sets => List.foldl_append
  have hthere : ∀ n, ((commits .empty past).commits (since.take n)).contains id = true := by
    intro n
    rw [← hconcat]
    exact hstays n
  obtain ⟨now, hnow, hgrows⟩ := grows_of_contains (Backend.load_whole_iff.1 hload) hthere
  rw [hconcat]
  simp only [Backend.load_whole_iff]
  refine ⟨fun stored hstored => ?_, fun changes hcommitted ⟨change, hm, hid, hexpects⟩ => ?_⟩
  · obtain rfl : now = stored := Option.some.inj (hnow.symm.trans hstored)
    rcases hgrows with rfl | hgrows
    · exact ⟨Nat.le_refl _, fun _ => rfl⟩
    · exact ⟨by omega, fun hsame => by omega⟩
  · have hrevision := (admitted_of_commitWhole hcommitted).1.expected change hm
    rw [hid, revision?_of_get? hnow, hexpects] at hrevision
    rcases hgrows with rfl | hgrows
    · exact hnow
    · have hsame : now.revision = loaded.revision := Option.some.inj hrevision
      omega

/-- A record that is in its second life is loaded after a set that removes and writes it
several times. While others come and go it is checked once more and replaced. -/
theorem revision_identifies_rewritten :
    let file (id name : String) : Record := ⟨id, some ⟨"news", name⟩, .empty, [], []⟩
    let past : List (List Change) :=
      [[.put (file "a" "front") none], [.delete "a" 1], [.put (file "a" "front") none],
        [.delete "a" 1, .put (file "a" "end") (some 1), .put (file "a" "back") (some 1)]]
    let since : List (List Change) :=
      [[.put (file "b" "front") none], [.delete "b" 1, .put (file "a" "end") (some 1)],
        [.delete "b" 1], [.put (file "b" "end") none]]
    let changes : List Change := [.put (file "a" "front") (some 2), .delete "b" 1]
    let s := commits .empty (past ++ since)
    (Backend.whole.load (commits .empty past) "a" = .ok (some ⟨file "a" "back", 2⟩) ∧
        ∀ n, (commits .empty (past ++ since.take n)).contains "a" = true) ∧
      (s.commitWhole changes).1 = .committed ∧
      Backend.whole.load s "a" = .ok (some ⟨file "a" "back", 2⟩) := by
  intro file past since changes s
  have hload : Backend.whole.load (commits .empty past) "a" = .ok (some ⟨file "a" "back", 2⟩) :=
    Backend.load_whole_iff.2 (by decide +kernel)
  have hstays : ∀ n, (commits .empty (past ++ since.take n)).contains "a" = true := by
    have hfew : ∀ n < 5, (commits .empty (past ++ since.take n)).contains "a" = true := by
      decide +kernel
    intro n
    rcases Nat.lt_or_ge n 5 with hn | hn
    · exact hfew n hn
    · rw [List.take_of_length_le (by exact Nat.le_trans (by decide) hn)]
      exact hfew 4 (by decide)
  have hcommitted : (s.commitWhole changes).1 = .committed := by decide +kernel
  refine ⟨⟨hload, hstays⟩, hcommitted, (revision_identifies past since hload hstays).2 changes
    hcommitted ⟨.put (file "a" "front") (some 2), List.mem_cons_self .., rfl, rfl⟩⟩

/-- A record is loaded at revision 1 and removed, and its id is given to another one. A
change made for the first is committed and replaces the second. -/
theorem revision_returns :
    let file (name : String) : Record := ⟨"a", some ⟨"news", name⟩, .empty, [], []⟩
    let past : List (List Change) := [[.put (file "front") none]]
    let since : List (List Change) := [[.delete "a" 1], [.put (file "back") none]]
    let changes : List Change := [.put (file "end") (some 1)]
    let s := commits .empty (past ++ since)
    Backend.whole.load (commits .empty past) "a" = .ok (some ⟨file "front", 1⟩) ∧
      (s.commitWhole changes).1 = .committed ∧
      Backend.whole.load s "a" = .ok (some ⟨file "back", 1⟩) ∧
      (⟨file "back", 1⟩ : Stored) ≠ ⟨file "front", 1⟩ := by
  simp only [Backend.load_whole_iff]
  decide +kernel

end Store

end Editorial
