import Editorial.Proofs.Store.Commit

/-!
# Where records are filed

A store files every record under its id and no two records in one place, and a
commit keeps to that: it is refused if a record would come to where another one
is or goes. So what is found in a place is the one record that is filed there,
and a record can be replaced where it is.

## Main results

* `Filed.commit` and `Spread.commit` — a commit keeps the store in order.
* `expected_of_commit` — a commit that succeeds found the revisions it expected.
* `admitted_of_commitWhole` — what a commit as a whole has made sure of.
-/

namespace Editorial

namespace Store

variable {s : Store}

/-- Every record is stored under its id. -/
def Filed (s : Store) : Prop := ∀ id stored, s.get? id = some stored → stored.record.id = id

theorem filed_of_empty (h : s = .empty) : s.Filed := by
  intro id stored hget
  rw [h, Keyed.get?_empty] at hget
  cases hget

/-- No two records are filed in one place. -/
def Spread (s : Store) : Prop :=
  ∀ location id stored id' stored', s.get? id = some stored → s.get? id' = some stored' →
    stored.record.location = some location → stored'.record.location = some location → id = id'

theorem forall_get?_iff {p : String → Stored → Prop} :
    (∀ id stored, s.get? id = some stored → p id stored) ↔
      ∀ entry ∈ s.entries, p entry.1 entry.2 :=
  ⟨fun h entry hm => h _ _ ((Keyed.get?_eq_some_iff s entry.1 entry.2).2 hm),
    fun h id stored hget => h (id, stored) ((Keyed.get?_eq_some_iff s id stored).1 hget)⟩

instance : Decidable s.Filed := decidable_of_iff' _ forall_get?_iff

theorem spread_iff : s.Spread ↔ ∀ entry ∈ s.entries, ∀ other ∈ s.entries,
    entry.2.record.location.isSome → entry.2.record.location = other.2.record.location →
      entry.1 = other.1 := by
  constructor
  · intro h entry hm other hm' hfiled hlocation
    obtain ⟨location, hl⟩ := Option.isSome_iff_exists.1 hfiled
    exact h location _ _ _ _ ((Keyed.get?_eq_some_iff s entry.1 entry.2).2 hm)
      ((Keyed.get?_eq_some_iff s other.1 other.2).2 hm') hl (hlocation ▸ hl)
  · intro h location id stored id' stored' hget hget' hl hl'
    exact h (id, stored) ((Keyed.get?_eq_some_iff s id stored).1 hget) (id', stored')
      ((Keyed.get?_eq_some_iff s id' stored').1 hget') (Option.isSome_iff_exists.2 ⟨location, hl⟩)
      (hl.trans hl'.symm)

instance : Decidable s.Spread := decidable_of_iff' _ spread_iff

/-- A stored record is at its revision. -/
theorem revision?_of_get? {id : String} {stored : Stored} (hget : s.get? id = some stored) :
    s.revision? id = some stored.revision := by
  rw [revision?, hget]
  rfl

theorem Filed.applyAll (hs : s.Filed) (changes : List Change) : (s.applyAll changes).Filed := by
  intro id stored hget
  rcases get?_applyAll_cases hget with ⟨hget, -⟩ | ⟨change, -, rfl, hresult⟩
  · exact hs id stored hget
  · obtain ⟨expected, rfl⟩ := Change.record_of_result? hresult
    rfl

/-- What is loaded by an id has the id. -/
theorem Filed.exists_of_load (hs : s.Filed) {b : Backend} {id : String} {loaded : Stored}
    (h : b.load s id = .ok (some loaded)) :
    ∃ stored, s.get? id = some stored ∧ loaded = b.handsOut stored ∧ loaded.record.id = id := by
  obtain ⟨stored, hget, hout⟩ := Backend.load_eq_some_iff.1 h
  obtain ⟨-, rfl⟩ := Backend.handOut?_eq_ok_iff.1 hout
  exact ⟨stored, hget, rfl, (b.id_handsOut stored).trans (hs id stored hget)⟩

/-- What is found in a place is filed there. -/
theorem Filed.exists_of_find? (hs : s.Filed) {location : Location} {id : String}
    (h : s.find? location = some id) :
    ∃ stored, s.get? id = some stored ∧ stored.record.location = some location := by
  obtain ⟨⟨key, stored⟩, hfound, rfl⟩ := Option.map_eq_some_iff.1 h
  have hget : s.get? key = some stored :=
    (Keyed.get?_eq_some_iff s key stored).2 (List.mem_of_find?_eq_some hfound)
  have hlocation : stored.record.location = some location := by
    simpa using List.find?_some hfound
  refine ⟨stored, ?_, hlocation⟩
  show s.get? stored.record.id = some stored
  rw [hs key stored hget]
  exact hget

/-- Nobody but `id` is filed at `place`. -/
def HasRoom (s : Store) (place : Location) (id : String) : Prop :=
  ∀ id' stored, s.get? id' = some stored → stored.record.location = some place → id' = id

/-- A document has room where it is. -/
theorem Spread.hasRoom (hs : s.Spread) {id : String} {stored : Stored} {place : Location}
    (hget : s.get? id = some stored) (hplace : stored.record.location = some place) :
    s.HasRoom place id := fun id' stored' hget' hplace' =>
  hs place id' stored' id stored hget' hget hplace' hplace

theorem not_mem_of_find?_eq_none {place : Location} (h : s.find? place = none) {id : String}
    {stored : Stored} (hget : s.get? id = some stored) : stored.record.location ≠ some place := by
  have hnone := List.find?_eq_none.1 (Option.map_eq_none_iff.1 h) (id, stored)
    ((Keyed.get?_eq_some_iff s id stored).1 hget)
  simpa using hnone

/-- A document has room where it is found or nobody is. -/
theorem hasRoom_of_find? (hfiled : s.Filed) (hs : s.Spread) {place : Location} {id : String}
    (h : s.find? place = none ∨ s.find? place = some id) : s.HasRoom place id := by
  rcases h with h | h
  · exact fun id' stored hget hplace => absurd hplace (not_mem_of_find?_eq_none h hget)
  · obtain ⟨stored, hget, hplace⟩ := hfiled.exists_of_find? h
    exact hs.hasRoom hget hplace

/-! ## Committing as a whole -/

theorem isTaken_eq_false_iff {written : List String} {location : Location} :
    s.isTaken written location = false ↔
      ∀ id stored, s.get? id = some stored → stored.record.location = some location →
        id ∈ written := by
  unfold isTaken
  rw [List.any_eq_false]
  constructor
  · intro h id stored hget hlocation
    have hentry := h (id, stored) ((Keyed.get?_eq_some_iff s id stored).1 hget)
    simpa [hlocation] using hentry
  · rintro h ⟨id, stored⟩ hm
    intro hentry
    simp only [Bool.and_eq_true, Bool.not_eq_true', decide_eq_true_eq] at hentry
    have hwritten := h id stored ((Keyed.get?_eq_some_iff s id stored).2 hm) hentry.2
    simp [hwritten] at hentry

/-- No change of the set is crowded. -/
theorem isCrowded_of_crowded? {written : List String} {earlier before after : List Change}
    {change : Change} (h : s.crowded? written earlier (before ++ change :: after) = none) :
    s.isCrowded written (earlier ++ before) change = false := by
  induction before generalizing earlier with
  | nil =>
      rw [List.nil_append, crowded?] at h
      rw [List.append_nil]
      cases hc : s.isCrowded written earlier change with
      | false => rfl
      | true =>
          rw [hc, if_pos rfl] at h
          cases h
  | cons other rest ih =>
      rw [List.cons_append, crowded?] at h
      cases hc : s.isCrowded written earlier other with
      | true =>
          rw [hc, if_pos rfl] at h
          cases h
      | false =>
          rw [hc, if_neg Bool.false_ne_true] at h
          have hrest := ih h
          rwa [List.append_assoc] at hrest

/-- What a commit as a whole has made sure of: that every change expects the
revision that is there, that no other record is where one is put, and that no two
are put in one place. -/
structure Admitted (s : Store) (changes : List Change) : Prop where
  expected : ∀ change ∈ changes, s.revision? change.id = change.expected?
  vacant : ∀ change ∈ changes, ∀ location, change.location? = some location →
    ∀ id stored, s.get? id = some stored → stored.record.location = some location →
      id ∈ changes.map Change.id
  apart : ∀ change ∈ changes, ∀ change' ∈ changes, ∀ location,
    change.location? = some location → change'.location? = some location → change.id = change'.id

/-- A change to one record is admitted if it expects the revision that is there and the
record has room where it is put. -/
theorem admitted_one_iff {change : Change} :
    s.Admitted [change] ↔ s.revision? change.id = change.expected? ∧
      ∀ place, change.location? = some place → s.HasRoom place change.id := by
  constructor
  · intro ha
    have hm : change ∈ [change] := List.mem_cons_self ..
    refine ⟨ha.expected change hm, fun place hplace id stored hget hstored => ?_⟩
    exact List.mem_singleton.1 (ha.vacant change hm place hplace id stored hget hstored)
  · rintro ⟨hexpected, hroom⟩
    refine ⟨fun c hm => ?_, fun c hm place hplace id stored hget hstored => ?_,
      fun c hm c' hm' place _ _ => ?_⟩
    · rw [List.mem_singleton.1 hm]
      exact hexpected
    · rw [List.mem_singleton.1 hm] at hplace
      exact List.mem_singleton.2 (hroom place hplace id stored hget hstored)
    · rw [List.mem_singleton.1 hm, List.mem_singleton.1 hm']

/-- Changes to two documents are admitted if both have room and one of them stays
where it is. -/
theorem admitted_two {change other : Change} {stored : Stored}
    (hget : s.get? change.id = some stored)
    (hstays : ∀ place, change.location? = some place → stored.record.location = some place)
    (hspread : s.Spread) (hexpected : s.revision? change.id = change.expected?)
    (hexpected' : s.revision? other.id = other.expected?)
    (hroom : ∀ place, other.location? = some place → s.HasRoom place other.id) :
    s.Admitted [change, other] := by
  have hroom' : ∀ place, change.location? = some place → s.HasRoom place change.id :=
    fun place hplace => hspread.hasRoom hget (hstays place hplace)
  have hsame : ∀ place, change.location? = some place → other.location? = some place →
      change.id = other.id := fun place hplace hplace' =>
    hroom place hplace' change.id stored hget (hstays place hplace)
  have htwo : ∀ {c}, c ∈ [change, other] → c = change ∨ c = other := fun hm => by simpa using hm
  refine ⟨fun c hm => ?_, fun c hm place hplace id there hthere hstored => ?_,
    fun c hm c' hm' place hplace hplace' => ?_⟩
  · rcases htwo hm with rfl | rfl
    · exact hexpected
    · exact hexpected'
  · rcases htwo hm with rfl | rfl
    · rw [hroom' place hplace id there hthere hstored]
      exact List.mem_cons_self ..
    · rw [hroom place hplace id there hthere hstored]
      exact List.mem_cons_of_mem _ (List.mem_cons_self ..)
  · rcases htwo hm with rfl | rfl <;> rcases htwo hm' with rfl | rfl
    · rfl
    · exact hsame place hplace hplace'
    · exact (hsame place hplace' hplace).symm
    · rfl

/-- Two elements of a list stand in some order. -/
theorem exists_split {α : Type} {a b : α} {l : List α} (ha : a ∈ l) (hb : b ∈ l) :
    a = b ∨ (∃ before after, l = before ++ b :: after ∧ a ∈ before) ∨
      ∃ before after, l = before ++ a :: after ∧ b ∈ before := by
  induction l with
  | nil => cases ha
  | cons x rest ih =>
      rcases List.mem_cons.1 ha with rfl | ha'
      · rcases List.mem_cons.1 hb with rfl | hb'
        · exact Or.inl rfl
        · obtain ⟨before, after, rfl⟩ := List.append_of_mem hb'
          exact Or.inr (Or.inl ⟨a :: before, after, rfl, List.mem_cons_self ..⟩)
      · rcases List.mem_cons.1 hb with rfl | hb'
        · obtain ⟨before, after, rfl⟩ := List.append_of_mem ha'
          exact Or.inr (Or.inr ⟨b :: before, after, rfl, List.mem_cons_self ..⟩)
        · rcases ih ha' hb' with he | ⟨before, after, rfl, hm⟩ | ⟨before, after, rfl, hm⟩
          · exact Or.inl he
          · exact Or.inr (Or.inl ⟨x :: before, after, rfl, List.mem_cons_of_mem _ hm⟩)
          · exact Or.inr (Or.inr ⟨x :: before, after, rfl, List.mem_cons_of_mem _ hm⟩)

theorem admitted_of_conflict? {changes : List Change} (h : s.conflict? changes = none) :
    s.Admitted changes := by
  unfold conflict? at h
  cases hstale : s.stale? changes with
  | some change =>
      rw [hstale] at h
      cases h
  | none =>
      rw [hstale] at h
      have hcrowded : ∀ before change after, changes = before ++ change :: after →
          ∀ location, change.location? = some location →
            (∀ other ∈ before, other.location? = some location → other.id = change.id) ∧
              s.isTaken (changes.map Change.id) location = false := by
        intro before change after hsplit location hlocation
        have hnone : s.crowded? (changes.map Change.id) [] (before ++ change :: after) = none := by
          rw [← hsplit]
          exact h
        have hc : s.isCrowded (changes.map Change.id) ([] ++ before) change = false :=
          isCrowded_of_crowded? hnone
        unfold isCrowded at hc
        rw [hlocation, Bool.or_eq_false_iff] at hc
        refine ⟨fun other hm hother => ?_, hc.2⟩
        have hany := List.any_eq_false.1 hc.1 other hm
        simpa [hother] using hany
      refine ⟨fun change hm => ?_, fun change hm location hlocation => ?_, ?_⟩
      · have hfound := List.find?_eq_none.1 hstale change hm
        simpa using hfound
      · obtain ⟨before, after, hsplit⟩ := List.append_of_mem hm
        exact isTaken_eq_false_iff.1 (hcrowded before change after hsplit location hlocation).2
      · intro change hm change' hm' location hlocation hlocation'
        rcases exists_split hm hm' with rfl | ⟨before, after, hsplit, hbefore⟩ |
          ⟨before, after, hsplit, hbefore⟩
        · rfl
        · obtain ⟨hearlier, -⟩ := hcrowded before change' after hsplit location hlocation'
          exact hearlier change hbefore hlocation
        · exact ((hcrowded before change after hsplit location hlocation).1 change' hbefore
            hlocation').symm

/-- Records put by admitted changes come to stand apart from all others. -/
theorem Admitted.spread {changes : List Change} (ha : s.Admitted changes) (hs : s.Spread) :
    (s.applyAll changes).Spread := by
  intro location id stored id' stored' hget hget' hlocation hlocation'
  have hput : ∀ {change : Change} {stored : Stored}, change.result? = some stored →
      stored.record.location = some location → change.location? = some location := by
    intro change stored hresult hlocation
    obtain ⟨expected, rfl⟩ := Change.record_of_result? hresult
    exact hlocation
  rcases get?_applyAll_cases hget with ⟨hget, halone⟩ | ⟨change, hm, rfl, hresult⟩
  · rcases get?_applyAll_cases hget' with ⟨hget', -⟩ | ⟨change', hm', rfl, hresult'⟩
    · exact hs location id stored id' stored' hget hget' hlocation hlocation'
    · obtain ⟨change, hm, hid⟩ := List.mem_map.1
        (ha.vacant change' hm' location (hput hresult' hlocation') id stored hget hlocation)
      exact absurd hid (halone change hm)
  · rcases get?_applyAll_cases hget' with ⟨hget', halone'⟩ | ⟨change', hm', rfl, hresult'⟩
    · obtain ⟨change', hm', hid⟩ := List.mem_map.1
        (ha.vacant change hm location (hput hresult hlocation) id' stored' hget' hlocation')
      exact absurd hid (halone' change' hm')
    · exact ha.apart change hm change' hm' location (hput hresult hlocation)
        (hput hresult' hlocation')

/-- A commit as a whole that succeeds was admitted. -/
theorem admitted_of_commitWhole {changes : List Change}
    (h : (s.commitWhole changes).1 = .committed) :
    s.Admitted changes ∧ (s.commitWhole changes).2 = s.applyAll changes := by
  unfold commitWhole at h ⊢
  cases hc : s.conflict? changes with
  | some change =>
      rw [hc] at h
      cases h
  | none => exact ⟨admitted_of_conflict? hc, rfl⟩

/-! ## Committing step by step -/

theorem isOccupied_eq_false_iff {id : String} {place : Location} :
    s.isOccupied id place = false ↔ s.HasRoom place id := by
  unfold isOccupied HasRoom
  rw [List.any_eq_false]
  constructor
  · intro h id' stored hget hplace
    have hentry := h (id', stored) ((Keyed.get?_eq_some_iff s id' stored).1 hget)
    simpa [hplace] using hentry
  · rintro h ⟨id', stored⟩ hm
    intro hentry
    simp only [Bool.and_eq_true, decide_eq_true_eq] at hentry
    exact hentry.1 (h id' stored ((Keyed.get?_eq_some_iff s id' stored).2 hm) hentry.2)

/-- A change that is admitted is a set of one that is admitted. -/
theorem admits_iff {change : Change} : s.admits change = true ↔ s.Admitted [change] := by
  unfold admits
  rw [admitted_one_iff, Bool.and_eq_true]
  refine and_congr (by simp) ?_
  cases change.location? with
  | none => simp
  | some place => simp [isOccupied_eq_false_iff]

theorem Spread.applyStepwise {s s' : Store} {changes : List Change} (hs : s.Spread)
    (h : s.applyStepwise changes = .ok s') : s'.Spread := by
  induction changes generalizing s with
  | nil =>
      cases h
      exact hs
  | cons change rest ih =>
      rw [Store.applyStepwise] at h
      by_cases hadmits : s.admits change = true
      · rw [if_pos hadmits] at h
        exact ih ((admits_iff.1 hadmits).spread hs) h
      · rw [if_neg hadmits] at h
        cases h

/-! ## Either way -/

theorem Filed.commit (hs : s.Filed) (b : Backend) (changes : List Change) :
    (b.commit s changes).2.Filed := by
  rcases b.commit_cases s changes with ⟨id, hc⟩ | hc
  · rw [hc]
    exact hs
  · rw [hc]
    exact hs.applyAll changes

theorem Spread.commit (hs : s.Spread) (b : Backend) (changes : List Change) :
    (b.commit s changes).2.Spread := by
  cases b with
  | whole =>
      show (s.commitWhole changes).2.Spread
      unfold commitWhole
      cases hc : s.conflict? changes with
      | some change => exact hs
      | none => exact (admitted_of_conflict? hc).spread hs
  | stepwise =>
      show (s.commitStepwise changes).2.Spread
      unfold commitStepwise
      cases hc : s.applyStepwise changes with
      | error change => exact hs
      | ok s' => exact hs.applyStepwise hc

/-- A commit of changes to different records succeeds only if every one expects the
revision that is there. -/
theorem expected_of_commit (b : Backend) {changes : List Change}
    (hdistinct : (changes.map Change.id).Nodup) (h : (b.commit s changes).1 = .committed) :
    ∀ change ∈ changes, s.revision? change.id = change.expected? := by
  cases b with
  | whole => exact (admitted_of_commitWhole h).1.expected
  | stepwise =>
      change (s.commitStepwise changes).1 = .committed at h
      unfold commitStepwise at h
      cases hc : s.applyStepwise changes with
      | error change =>
          rw [hc] at h
          cases h
      | ok s' => exact expected_of_applyStepwise hdistinct hc

end Store

end Editorial
