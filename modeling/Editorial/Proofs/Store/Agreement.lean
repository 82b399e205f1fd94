import Mathlib.Algebra.Group.Nat.Defs
import Editorial.Proofs.Store.Exact
import Editorial.Proofs.Store.Nesting

/-!
# Where two ways to commit agree

A store in memory judges a set of changes by the store that they would leave. A table
has an index of places that holds after every single change, so it refuses to put a
record where another one still is, even if a later change of the set would have moved
that one away. Two records cannot swap places in a table, and a place is handed over
only by a set that gives it up first. Every change of a refused set may expect the
revision that is there and no two records would have ended up in one place.

That is all the two differ in. If every place has been left by the time a record is put
there, the table decides as the memory does and is left as the memory is; otherwise the
table refuses the set.

## Main results

* `admitted_inTurn_cons` — what the first change of a set does to the rest.
* `exists_applyStepwise_iff` — which sets are made step by step.
* `commitStepwise_two` — two changes of which the first leaves its record in its place.
* `commitStepwise_exact` — how a commit step by step compares to one as a whole.
* `swap_refused` — two records swap places in memory and not in a table.
-/

namespace Editorial

namespace Store

variable {s s' : Store} {change : Change} {changes rest : List Change}

/-! ## Changes in turn -/

/-- Where the record `id` is filed. -/
def location? (s : Store) (id : String) : Option Location :=
  (s.get? id).bind fun stored => stored.record.location

theorem location?_eq_some_iff {id : String} {place : Location} :
    s.location? id = some place ↔
      ∃ stored, s.get? id = some stored ∧ stored.record.location = some place :=
  Option.bind_eq_some_iff

/-- No record is put where the record of a later change is filed. -/
def InTurn (s : Store) (changes : List Change) : Prop :=
  changes.Pairwise fun change later =>
    change.location?.isSome → s.location? later.id ≠ change.location?

instance : Decidable (s.InTurn changes) := inferInstanceAs (Decidable (List.Pairwise _ _))

/-- Only the records that the changes are about count. -/
theorem inTurn_congr (h : ∀ change ∈ changes, s'.get? change.id = s.get? change.id) :
    s'.InTurn changes ↔ s.InTurn changes := by
  refine List.Pairwise.iff_of_mem fun {change later} _ hlater => ?_
  rw [location?, location?, h later hlater]

/-- A change leaves the records of the other changes alone. -/
theorem get?_apply_of_distinct (hdistinct : ((change :: rest).map Change.id).Nodup) :
    ∀ other ∈ rest, (s.apply change).get? other.id = s.get? other.id := by
  intro other hm
  rw [List.map_cons, List.nodup_cons] at hdistinct
  have hne : other.id ≠ change.id := fun he => hdistinct.1 (he ▸ List.mem_map_of_mem hm)
  rw [get?_apply, if_neg hne]

/-- A set can be made in turn exactly if its first change is admitted as things are and
the others can be made in turn after it. -/
theorem admitted_inTurn_cons (hs : s.Spread)
    (hdistinct : ((change :: rest).map Change.id).Nodup) :
    s.Admitted (change :: rest) ∧ s.InTurn (change :: rest) ↔
      s.admits change = true ∧ (s.apply change).Admitted rest ∧ (s.apply change).InTurn rest := by
  have hrest : (rest.map Change.id).Nodup := (List.nodup_cons.1 hdistinct).2
  have hsame := get?_apply_of_distinct (s := s) hdistinct
  have hrevision : ∀ other ∈ rest, (s.apply change).revision? other.id = s.revision? other.id :=
    fun other hm => congrArg (Option.map Stored.revision) (hsame other hm)
  rw [inTurn_congr hsame, admits_iff]
  constructor
  · rintro ⟨ha, hturn⟩
    obtain ⟨hfirst, hturn⟩ := List.pairwise_cons.1 hturn
    have hadmits : s.Admitted [change] := by
      refine admitted_one_iff.2 ⟨ha.expected change (List.mem_cons_self ..), ?_⟩
      intro place hplace id stored hget hstored
      have hm := ha.vacant change (List.mem_cons_self ..) place hplace id stored hget hstored
      rcases List.mem_cons.1 hm with rfl | hm
      · rfl
      · -- The record in the place is that of a later change, which `InTurn` excludes.
        obtain ⟨later, hlater, rfl⟩ := List.mem_map.1 hm
        have hthere : s.location? later.id = some place :=
          location?_eq_some_iff.2 ⟨stored, hget, hstored⟩
        exact absurd (hthere.trans hplace.symm) (hfirst later hlater (by rw [hplace]; rfl))
    have hafter : (s.apply change).Spread := hadmits.spread hs
    refine ⟨hadmits, (admitted_iff hafter hrest).2 ⟨fun other hm => ?_, ha.spread hs⟩, hturn⟩
    rw [hrevision other hm]
    exact ha.expected other (List.mem_cons_of_mem _ hm)
  · rintro ⟨hadmits, ha, hturn⟩
    obtain ⟨hexpected, hroom⟩ := admitted_one_iff.1 hadmits
    have hafter : (s.apply change).Spread := hadmits.spread hs
    refine ⟨(admitted_iff hs hdistinct).2 ⟨fun other hm => ?_, ha.spread hafter⟩,
      List.pairwise_cons.2 ⟨fun later hlater hput hthere => ?_, hturn⟩⟩
    · rcases List.mem_cons.1 hm with rfl | hm
      · exact hexpected
      · rw [← hrevision other hm]
        exact ha.expected other hm
    · obtain ⟨place, hplace⟩ := Option.isSome_iff_exists.1 hput
      obtain ⟨stored, hget, hstored⟩ := location?_eq_some_iff.1 (hthere.trans hplace)
      have hid : later.id = change.id := hroom place hplace later.id stored hget hstored
      exact (List.nodup_cons.1 hdistinct).1 (hid ▸ List.mem_map_of_mem hlater)

/-- Changes to different records are made step by step exactly if they are admitted as a
whole and come in turn. -/
theorem exists_applyStepwise_iff (hs : s.Spread) (hdistinct : (changes.map Change.id).Nodup) :
    (∃ after, s.applyStepwise changes = .ok after) ↔ s.Admitted changes ∧ s.InTurn changes := by
  induction changes generalizing s with
  | nil =>
      refine iff_of_true ⟨s, rfl⟩ ⟨(admitted_iff hs hdistinct).2 ⟨?_, hs⟩, List.Pairwise.nil⟩
      exact List.forall_mem_nil _
  | cons change rest ih =>
      rw [admitted_inTurn_cons hs hdistinct, applyStepwise]
      by_cases hadmits : s.admits change = true
      · have hafter : (s.apply change).Spread := (admits_iff.1 hadmits).spread hs
        rw [if_pos hadmits, ih hafter (List.nodup_cons.1 hdistinct).2, and_iff_right hadmits]
      · rw [if_neg hadmits]
        refine iff_of_false ?_ fun h => hadmits h.1
        rintro ⟨after, h⟩
        cases h

/-! ## What is decided -/

theorem commitStepwise_committed_iff :
    (s.commitStepwise changes).1 = .committed ↔ ∃ after, s.applyStepwise changes = .ok after := by
  unfold commitStepwise
  cases s.applyStepwise changes with
  | error change =>
      refine iff_of_false nofun ?_
      rintro ⟨after, h⟩
      cases h
  | ok after => exact iff_of_true rfl ⟨after, rfl⟩

theorem commitWhole_committed_iff :
    (s.commitWhole changes).1 = .committed ↔ s.Admitted changes :=
  ⟨fun h => (admitted_of_commitWhole h).1, fun ha => by rw [commitWhole_of_admitted ha]⟩

/-- The change that is not admitted is one of the set. -/
theorem mem_of_applyStepwise_error (h : s.applyStepwise changes = .error change) :
    change ∈ changes := by
  induction changes generalizing s with
  | nil => cases h
  | cons first rest ih =>
      rw [applyStepwise] at h
      by_cases hadmits : s.admits first = true
      · rw [if_pos hadmits] at h
        exact List.mem_cons_of_mem _ (ih h)
      · rw [if_neg hadmits] at h
        cases h
        exact List.mem_cons_self ..

/-- A set that is not made step by step changes nothing, and one of its records is
reported. -/
theorem commitStepwise_refused (h : (s.commitStepwise changes).1 ≠ .committed) :
    ∃ id ∈ changes.map Change.id, s.commitStepwise changes = (.conflict id, s) := by
  unfold commitStepwise at h ⊢
  cases hc : s.applyStepwise changes with
  | ok after =>
      rw [hc] at h
      exact absurd rfl h
  | error change =>
      exact ⟨change.id, List.mem_map_of_mem (mem_of_applyStepwise_error hc), rfl⟩

/-- A commit either way that is refused leaves the store as it was. -/
theorem commit_refused {b : Backend} (h : (b.commit s changes).1 ≠ .committed) :
    (b.commit s changes).2 = s := by
  rcases b.commit_cases s changes with ⟨id, hc⟩ | hc
  · rw [hc]
  · rw [hc] at h
    exact absurd rfl h

/-! ## One change, or two -/

/-- A single change is judged alike in both ways. -/
theorem commitStepwise_one (s : Store) (change : Change) :
    s.commitStepwise [change] = s.commitWhole [change] := by
  unfold commitStepwise
  rw [applyStepwise]
  by_cases hadmits : s.admits change = true
  · rw [if_pos hadmits, commitWhole_of_admitted (admits_iff.1 hadmits)]
    rfl
  · rw [if_neg hadmits]
    unfold commitWhole
    cases hc : s.conflict? [change] with
    | none => exact absurd (admits_iff.2 (conflict?_eq_none_iff.1 hc)) hadmits
    | some reported => rw [List.mem_singleton.1 (mem_of_conflict? hc)]

/-- A change that does not expect the revision that is there is reported if it comes first. -/
theorem conflict?_of_stale (h : s.revision? change.id ≠ change.expected?) (rest : List Change) :
    s.conflict? (change :: rest) = some change := by
  unfold conflict? stale?
  rw [List.find?_cons_of_pos (by simpa using h)]

/-- If the first of two changes could be made alone, only the second one is ever reported. -/
theorem conflict?_second {other : Change} (hfirst : s.Admitted [change]) :
    s.conflict? [change, other] = none ∨ s.conflict? [change, other] = some other := by
  obtain ⟨hexpected, hroom⟩ := admitted_one_iff.1 hfirst
  have hfree : s.isCrowded ([change, other].map Change.id) [] change = false := by
    unfold isCrowded
    cases hplace : change.location? with
    | none => rfl
    | some place =>
        refine Bool.or_eq_false_iff.2 ⟨rfl, isTaken_eq_false_iff.2 fun id stored hget hl => ?_⟩
        rw [hroom place hplace id stored hget hl]
        exact List.mem_cons_self ..
  unfold conflict? stale?
  rw [List.find?_cons_of_neg (by simpa using hexpected)]
  cases hstale : [other].find? fun change => s.revision? change.id ≠ change.expected? with
  | some stale =>
      exact Or.inr (congrArg some (List.mem_singleton.1 (List.mem_of_find?_eq_some hstale)))
  | none =>
      show s.crowded? _ [] [change, other] = none ∨ s.crowded? _ [] [change, other] = some other
      rw [crowded?, hfree, if_neg Bool.false_ne_true]
      cases hcrowded : s.crowded? ([change, other].map Change.id) ([] ++ [change]) [other] with
      | none => exact Or.inl rfl
      | some crowded =>
          exact Or.inr (congrArg some (List.mem_singleton.1 (mem_of_crowded? hcrowded)))

/-- Two changes of which the first leaves its record in its place are judged alike in both
ways, and the same one is reported. -/
theorem commitStepwise_two {other : Change} (hspread : s.Spread) (hne : change.id ≠ other.id)
    (hstays : s.revision? change.id = change.expected? →
      ∀ place, change.location? = some place → s.location? change.id = some place) :
    s.commitStepwise [change, other] = s.commitWhole [change, other] := by
  have hdistinct : ([change, other].map Change.id).Nodup := by simpa using hne
  by_cases hexpected : s.revision? change.id = change.expected?
  · have hroom : ∀ place, change.location? = some place → s.HasRoom place change.id := by
      intro place hplace
      obtain ⟨stored, hget, hstored⟩ := location?_eq_some_iff.1 (hstays hexpected place hplace)
      exact hspread.hasRoom hget hstored
    have hfirst : s.Admitted [change] := admitted_one_iff.2 ⟨hexpected, hroom⟩
    have hturn : s.InTurn [change, other] := by
      refine List.pairwise_pair.2 fun hput hthere => ?_
      obtain ⟨place, hplace⟩ := Option.isSome_iff_exists.1 hput
      obtain ⟨stored, hget, hstored⟩ := location?_eq_some_iff.1 (hthere.trans hplace)
      exact hne (hroom place hplace other.id stored hget hstored).symm
    by_cases ha : s.Admitted [change, other]
    · rw [commitWhole_of_admitted ha]
      obtain ⟨after, hafter⟩ := (exists_applyStepwise_iff hspread hdistinct).2 ⟨ha, hturn⟩
      unfold commitStepwise
      rw [hafter, applyStepwise_eq hafter]
    · have hsecond : (s.apply change).admits other ≠ true := by
        intro hadmits
        refine ha ((admitted_inTurn_cons hspread hdistinct).2 ?_).1
        exact ⟨admits_iff.2 hfirst, admits_iff.1 hadmits, List.pairwise_singleton _ _⟩
      have hconflict : s.conflict? [change, other] = some other :=
        (conflict?_second hfirst).resolve_left fun hnone => ha (conflict?_eq_none_iff.1 hnone)
      unfold commitStepwise commitWhole
      rw [applyStepwise, if_pos (admits_iff.2 hfirst), applyStepwise, if_neg hsecond, hconflict]
  · have hadmits : s.admits change ≠ true := fun h =>
      hexpected (admitted_one_iff.1 (admits_iff.1 h)).1
    unfold commitStepwise commitWhole
    rw [applyStepwise, if_neg hadmits, conflict?_of_stale hexpected]

/-- How a commit step by step compares to a commit as a whole. -/
structure ComparesStepwise (s : Store) (changes : List Change) : Prop where
  /-- Changes in turn are committed in both ways or in none, and leave one store, from
  which a record that a table keeps is loaded as the same one. -/
  inTurn : s.InTurn changes →
    ((s.commitStepwise changes).1 = .committed ↔ (s.commitWhole changes).1 = .committed) ∧
      (s.commitStepwise changes).2 = (s.commitWhole changes).2 ∧
      ∀ id, (∀ loaded, Backend.whole.load (s.commitWhole changes).2 id = .ok (some loaded) →
          loaded.record.IsKept) →
        Backend.stepwise.load (s.commitStepwise changes).2 id =
          Backend.whole.load (s.commitWhole changes).2 id
  /-- The reasons for which a set is refused step by step. -/
  refused : (s.commitStepwise changes).1 ≠ .committed ↔
    (∃ change ∈ changes, s.revision? change.id ≠ change.expected?) ∨
      ¬ (s.applyAll changes).Spread ∨ ¬ s.InTurn changes
  /-- What is refused step by step changes nothing, and one of its records is reported. -/
  kept : (s.commitStepwise changes).1 ≠ .committed →
    ∃ id ∈ changes.map Change.id, s.commitStepwise changes = (.conflict id, s)
  /-- Revisions still fit the column they are kept in. -/
  fits : ∀ id stored, (s.commitStepwise changes).2.get? id = some stored →
    stored.revision < 2 ^ 63

/-- Changes to different records that are made step by step are made as a whole, and with
the same result. The converse holds for changes in turn. -/
theorem commitStepwise_exact (hspread : s.Spread)
    (hroom : ∀ id stored, s.get? id = some stored → stored.revision < 2 ^ 63 - 1)
    (hdistinct : (changes.map Change.id).Nodup) : s.ComparesStepwise changes := by
  have hiff : (s.commitStepwise changes).1 = .committed ↔ s.Admitted changes ∧ s.InTurn changes :=
    commitStepwise_committed_iff.trans (exists_applyStepwise_iff hspread hdistinct)
  refine ⟨fun hturn => ?_, ?_, commitStepwise_refused, fun id stored hget => ?_⟩
  · have hsame : (s.commitStepwise changes).1 = .committed ↔
        (s.commitWhole changes).1 = .committed := by
      rw [hiff, commitWhole_committed_iff, and_iff_left hturn]
    have hafter : (s.commitStepwise changes).2 = (s.commitWhole changes).2 := by
      by_cases hc : (s.commitStepwise changes).1 = .committed
      · exact (Backend.commit_of_committed (b := .stepwise) hc).trans
          (Backend.commit_of_committed (b := .whole) (hsame.1 hc)).symm
      · exact (commit_refused (b := .stepwise) hc).trans
          (commit_refused (b := .whole) fun h => hc (hsame.2 h)).symm
    refine ⟨hsame, hafter, fun id hloaded => ?_⟩
    have hkept : ∀ stored, (s.commitWhole changes).2.get? id = some stored →
        stored.record.IsKept := fun stored hget => hloaded stored (Backend.load_whole_iff.2 hget)
    rw [hafter, Backend.load_of_isKept _ hkept, Backend.load_of_isKept _ hkept]
  · rw [ne_eq, hiff, admitted_iff hspread hdistinct, not_and_or, not_and_or, or_assoc]
    simp only [not_forall, exists_prop, ne_eq]
  · by_cases hc : (s.commitStepwise changes).1 = .committed
    · have hafter : (s.commitStepwise changes).2 = s.applyAll changes :=
        Backend.commit_of_committed (b := .stepwise) hc
      rw [hafter] at hget
      exact ((made_iff hdistinct).2 rfl).revision_lt_bound (by decide) (hiff.1 hc).1.expected
        hroom hget
    · have hafter : (s.commitStepwise changes).2 = s := commit_refused (b := .stepwise) hc
      rw [hafter] at hget
      have hlt := hroom id stored hget
      omega

/-- A place is given up first and then put to, and a third record is removed after another
one was put somewhere else. -/
theorem commitStepwise_exact_handed_over :
    let file (id name : String) : Record := ⟨id, some ⟨"news", name⟩, .empty, [], []⟩
    let s : Store := Keyed.ofList
      [("a", ⟨file "a" "front", 4⟩), ("b", ⟨file "b" "back", 1⟩), ("c", ⟨file "c" "middle", 2⟩)]
    let changes : List Change :=
      [.put (file "b" "end") (some 1), .put (file "a" "back") (some 4), .delete "c" 2]
    (s.Spread ∧ (∀ id stored, s.get? id = some stored → stored.revision < 2 ^ 63 - 1) ∧
        (changes.map Change.id).Nodup) ∧
      s.InTurn changes ∧ (s.commitStepwise changes).1 = .committed ∧
      (s.commitStepwise changes).2 = (s.commitWhole changes).2 ∧
      (s.commitStepwise changes).2.keys = ["a", "b"] := by
  intro file s changes
  have hspread : s.Spread := by decide +kernel
  have hroom : ∀ id stored, s.get? id = some stored → stored.revision < 2 ^ 63 - 1 :=
    forall_get?_iff.2 (by decide +kernel)
  have hdistinct : (changes.map Change.id).Nodup := by decide +kernel
  have hturn : s.InTurn changes := by decide +kernel
  obtain ⟨hsame, hafter, -⟩ := (commitStepwise_exact hspread hroom hdistinct).inTurn hturn
  exact ⟨⟨hspread, hroom, hdistinct⟩, hturn, hsame.2 (by decide +kernel), hafter,
    by decide +kernel⟩

/-- Two records swap places in memory. A table refuses that, although both changes expect
the revision that is there and no two records would end up in one place. -/
theorem swap_refused :
    let file (id name : String) : Record := ⟨id, some ⟨"news", name⟩, .empty, [], []⟩
    let s : Store := Keyed.ofList [("a", ⟨file "a" "front", 1⟩), ("b", ⟨file "b" "back", 1⟩)]
    let changes : List Change := [.put (file "a" "back") (some 1), .put (file "b" "front") (some 1)]
    s.Spread ∧ (∀ id stored, s.get? id = some stored → stored.revision < 2 ^ 63 - 1) ∧
      (changes.map Change.id).Nodup ∧
      (∀ change ∈ changes, s.revision? change.id = change.expected?) ∧
      (s.applyAll changes).Spread ∧
      (s.commitWhole changes).1 = .committed ∧ s.commitStepwise changes = (.conflict "a", s) := by
  refine ⟨by decide +kernel, forall_get?_iff.2 (by decide +kernel), ?_⟩
  decide +kernel

end Store

end Editorial
