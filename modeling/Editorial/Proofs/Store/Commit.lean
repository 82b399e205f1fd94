import Editorial.Proofs.Record.Sound
import Editorial.Store.Backend

/-!
# What a commit leaves in the store

A set of changes is made completely or not at all, whatever the backend. What is
in the store afterwards was there before or is left by one of the changes, so a
property of records that all changes have is kept. Reading records again, as a
table does, changes their contents only.
-/

namespace Editorial

/-! ## Changes -/

namespace Store

/-- What is in the store under an id was there before and was left alone, or it is what
one of the changes left. -/
theorem get?_applyAll (s : Store) (changes : List Change) (id : String) :
    ((s.applyAll changes).get? id = s.get? id ∧ ∀ change ∈ changes, change.id ≠ id) ∨
      ∃ change ∈ changes, change.id = id ∧ (s.applyAll changes).get? id = change.result? := by
  induction changes generalizing s with
  | nil => exact Or.inl ⟨rfl, fun _ hm => nomatch hm⟩
  | cons change rest ih =>
      show (((s.apply change).applyAll rest).get? id = _ ∧ _) ∨
        ∃ other ∈ change :: rest, other.id = id ∧ ((s.apply change).applyAll rest).get? id = _
      rcases ih (s.apply change) with ⟨hget, hrest⟩ | ⟨other, hm, hid, hget⟩
      · rw [get?_apply] at hget
        by_cases hid : id = change.id
        · rw [if_pos hid] at hget
          exact Or.inr ⟨change, List.mem_cons_self .., hid.symm, hget⟩
        · rw [if_neg hid] at hget
          refine Or.inl ⟨hget, fun other hm => ?_⟩
          rcases List.mem_cons.1 hm with rfl | hm
          · exact fun he => hid he.symm
          · exact hrest other hm
      · exact Or.inr ⟨other, List.mem_cons_of_mem _ hm, hid, hget⟩

/-- What is put alone is there afterwards. -/
theorem get?_applyAll_put (s : Store) (record : Record) (expected : Option Nat) :
    (s.applyAll [.put record expected]).get? record.id =
      some ⟨record, expected.elim 1 (· + 1)⟩ :=
  (s.get?_apply (.put record expected) record.id).trans (if_pos rfl)

/-- A stored record was there before and was left alone, or it was put by one of
the changes. -/
theorem get?_applyAll_cases {s : Store} {changes : List Change} {id : String} {stored : Stored}
    (h : (s.applyAll changes).get? id = some stored) :
    (s.get? id = some stored ∧ ∀ change ∈ changes, change.id ≠ id) ∨
      ∃ change ∈ changes, change.id = id ∧ change.result? = some stored := by
  rcases s.get?_applyAll changes id with ⟨hget, halone⟩ | ⟨change, hm, hid, hget⟩
  · exact Or.inl ⟨hget.symm.trans h, halone⟩
  · exact Or.inr ⟨change, hm, hid, hget.symm.trans h⟩

theorem applyStepwise_eq {s s' : Store} {changes : List Change}
    (h : s.applyStepwise changes = .ok s') : s' = s.applyAll changes := by
  induction changes generalizing s with
  | nil =>
      cases h
      rfl
  | cons change rest ih =>
      rw [applyStepwise] at h
      by_cases hadmits : s.admits change = true
      · rw [if_pos hadmits] at h
        exact ih h
      · rw [if_neg hadmits] at h
        cases h

/-- Changes to different records are made step by step only if every one expects the
revision that is there from the beginning. -/
theorem expected_of_applyStepwise {s s' : Store} {changes : List Change}
    (hdistinct : (changes.map Change.id).Nodup) (h : s.applyStepwise changes = .ok s') :
    ∀ change ∈ changes, s.revision? change.id = change.expected? := by
  induction changes generalizing s with
  | nil => exact List.forall_mem_nil _
  | cons first rest ih =>
      rw [List.map_cons, List.nodup_cons] at hdistinct
      rw [applyStepwise] at h
      by_cases hadmits : s.admits first = true
      · rw [if_pos hadmits] at h
        intro change hm
        rcases List.mem_cons.1 hm with rfl | hm
        · have hrevision := (Bool.and_eq_true_iff.1 hadmits).1
          simpa using hrevision
        · have hne : change.id ≠ first.id := fun he =>
            hdistinct.1 (he ▸ List.mem_map_of_mem hm)
          rw [← ih hdistinct.2 h change hm, revision?, revision?, get?_apply, if_neg hne]
      · rw [if_neg hadmits] at h
        cases h

end Store

theorem Change.record_of_result? {change : Change} {stored : Stored}
    (h : change.result? = some stored) : ∃ expected, change = .put stored.record expected := by
  cases change with
  | put record expected =>
      cases h
      exact ⟨expected, rfl⟩
  | delete id expected => cases h

/-! ## Backends -/

namespace Backend

/-- A set of changes is made completely or not at all. -/
theorem commit_cases (b : Backend) (s : Store) (changes : List Change) :
    (∃ id, b.commit s changes = (.conflict id, s)) ∨
      b.commit s changes = (.committed, s.applyAll changes) := by
  cases b with
  | whole =>
      show (∃ id, s.commitWhole changes = _) ∨ s.commitWhole changes = _
      unfold Store.commitWhole
      cases s.conflict? changes with
      | some change => exact Or.inl ⟨change.id, rfl⟩
      | none => exact Or.inr rfl
  | stepwise =>
      show (∃ id, s.commitStepwise changes = _) ∨ s.commitStepwise changes = _
      unfold Store.commitStepwise
      cases h : s.applyStepwise changes with
      | error change => exact Or.inl ⟨change.id, rfl⟩
      | ok s' =>
          rw [Store.applyStepwise_eq h]
          exact Or.inr rfl

/-- The store after a commit that went through. -/
theorem commit_of_committed {b : Backend} {s : Store} {changes : List Change}
    (h : (b.commit s changes).1 = .committed) : (b.commit s changes).2 = s.applyAll changes := by
  rcases b.commit_cases s changes with ⟨id, hconflict⟩ | hmade
  · rw [hconflict] at h
    cases h
  · rw [hmade]

/-- A stored record as the backend hands it out. -/
def handsOut : Backend → Stored → Stored
  | whole, stored => stored
  | stepwise, stored => { stored with record := stored.record.reread }

/-- Whether the backend can hand out a record: a table has to read its text. -/
def canRead : Backend → Record → Bool
  | whole, _ => true
  | stepwise, r => r.isReadable

theorem handOut?_eq (b : Backend) (stored : Stored) :
    b.handOut? stored =
      if b.canRead stored.record then .ok (b.handsOut stored) else .error .nestedTooDeep := by
  cases b with
  | whole => rfl
  | stepwise =>
      show stored.record.reread?.map _ = if stored.record.isReadable then _ else _
      unfold Record.reread?
      split <;> rfl

variable {b : Backend} {s : Store} {id : String} {stored loaded : Stored}

theorem handOut?_eq_ok_iff : b.handOut? stored = .ok loaded ↔
    b.canRead stored.record = true ∧ b.handsOut stored = loaded := by
  rw [handOut?_eq]
  by_cases hreads : b.canRead stored.record = true
  · rw [if_pos hreads, Except.ok.injEq, and_iff_right hreads]
  · rw [if_neg hreads]
    exact ⟨nofun, fun h => absurd h.1 hreads⟩

theorem load_of_get?_none (h : s.get? id = none) : b.load s id = .ok none := by
  rw [load, h]

theorem load_of_canRead (h : s.get? id = some stored) (hreads : b.canRead stored.record = true) :
    b.load s id = .ok (some (b.handsOut stored)) := by
  rw [load, h]
  show (b.handOut? stored).map some = _
  rw [handOut?_eq, if_pos hreads]
  rfl

theorem load_of_not_canRead (h : s.get? id = some stored)
    (hreads : ¬ b.canRead stored.record = true) : b.load s id = .error .nestedTooDeep := by
  rw [load, h]
  show (b.handOut? stored).map some = _
  rw [handOut?_eq, if_neg hreads]
  rfl

/-- What is loaded is a stored record, as the backend hands it out. -/
theorem load_eq_some_iff :
    b.load s id = .ok (some loaded) ↔
      ∃ stored, s.get? id = some stored ∧ b.handOut? stored = .ok loaded := by
  unfold load
  cases hget : s.get? id with
  | none => simp
  | some stored => cases hout : b.handOut? stored <;> simp [Except.map, hout]

/-- A record that is stored is not loaded for one reason only. -/
theorem eq_nestedTooDeep_of_load {failure : Failure} (h : b.load s id = .error failure) :
    failure = .nestedTooDeep := by
  cases hget : s.get? id with
  | none =>
      rw [load_of_get?_none hget] at h
      cases h
  | some stored =>
      by_cases hreads : b.canRead stored.record = true
      · rw [load_of_canRead hget hreads] at h
        cases h
      · rw [load_of_not_canRead hget hreads] at h
        exact (Except.error.inj h).symm

/-- The record `id`, if there is one that the backend can hand out. -/
def loaded? (b : Backend) (s : Store) (id : String) : Option Stored :=
  (b.load s id).toOption.join

theorem loaded?_of_canRead (h : s.get? id = some stored)
    (hreads : b.canRead stored.record = true) : b.loaded? s id = some (b.handsOut stored) := by
  rw [loaded?, load_of_canRead h hreads]
  rfl

/-- From memory a record is loaded exactly if it is stored. -/
theorem load_whole_iff : whole.load s id = .ok (some stored) ↔ s.get? id = some stored := by
  refine load_eq_some_iff.trans ⟨?_, fun h => ⟨stored, h, rfl⟩⟩
  rintro ⟨other, hget, hout⟩
  cases hout
  exact hget

@[simp] theorem revision_handsOut (b : Backend) (stored : Stored) :
    (b.handsOut stored).revision = stored.revision := by
  cases b <;> rfl

@[simp] theorem id_handsOut (b : Backend) (stored : Stored) :
    (b.handsOut stored).record.id = stored.record.id := by
  cases b <;> rfl

@[simp] theorem location_handsOut (b : Backend) (stored : Stored) :
    (b.handsOut stored).record.location = stored.record.location := by
  cases b <;> rfl

theorem record_handsOut (b : Backend) (stored : Stored) :
    (b.handsOut stored).record = stored.record ∨
      (b.handsOut stored).record = stored.record.reread := by
  cases b with
  | whole => exact Or.inl rfl
  | stepwise => exact Or.inr rfl

/-- What is loaded is the stored record, or the stored record read again. -/
theorem load_cases
    (h : b.load s id = .ok (some loaded)) :
    ∃ stored, s.get? id = some stored ∧ loaded.revision = stored.revision ∧
      (loaded.record = stored.record ∨ loaded.record = stored.record.reread) := by
  obtain ⟨stored, hget, hout⟩ := load_eq_some_iff.1 h
  obtain ⟨-, rfl⟩ := handOut?_eq_ok_iff.1 hout
  exact ⟨stored, hget, b.revision_handsOut stored, b.record_handsOut stored⟩

end Backend

/-! ## Reading again -/

namespace Record

theorem get_reread (r : Record) (stage : Stage) :
    r.reread.variants.get stage =
      (r.variants.get stage).map fun v => { v with content := v.content.reread } := by
  cases stage <;> rfl

theorem has_reread (r : Record) (stage : Stage) :
    r.reread.variants.has stage = r.variants.has stage := by
  unfold Variants.has
  rw [get_reread, Option.isSome_map]

/-- Times are not touched, so their order stays. -/
theorem ordered_reread {history : List Snapshot} (h : Snapshot.Ordered history) :
    Snapshot.Ordered (history.map fun s => { s with content := s.content.reread }) := by
  induction history with
  | nil => trivial
  | cons a rest ih =>
      cases rest with
      | nil => trivial
      | cons b rest => exact ⟨h.1, ih h.2⟩

theorem IsSound.reread {r : Record} (hs : r.IsSound) : r.reread.IsSound := by
  refine (isSound_iff _).2 ⟨?_, ?_, hs.pending, ordered_reread hs.history⟩
  · intro stage v hv
    rw [get_reread] at hv
    obtain ⟨v', hv', rfl⟩ := Option.map_eq_some_iff.1 hv
    exact hs.filed stage v' hv'
  · have hbacked := hs.backed
    unfold Variants.Backed at hbacked ⊢
    simpa only [has_reread] using hbacked

end Record

theorem Backend.isSound_handsOut (b : Backend) {stored : Stored} (h : stored.record.IsSound) :
    (b.handsOut stored).record.IsSound := by
  cases b with
  | whole => exact h
  | stepwise => exact h.reread

/-- A variant as the backend hands it out. -/
def Backend.readsBack : Backend → Variant → Variant
  | whole, v => v
  | stepwise, v => { v with content := v.content.reread }

theorem Backend.get_handsOut (b : Backend) (stored : Stored) (stage : Stage) :
    (b.handsOut stored).record.variants.get stage =
      (stored.record.variants.get stage).map b.readsBack := by
  cases b with
  | whole => exact Option.map_id'.symm
  | stepwise => exact stored.record.get_reread stage

@[simp] theorem Backend.has_handsOut (b : Backend) (stored : Stored) (stage : Stage) :
    (b.handsOut stored).record.variants.has stage = stored.record.variants.has stage := by
  unfold Variants.has
  rw [get_handsOut, Option.isSome_map]

@[simp] theorem Backend.requests_handsOut (b : Backend) (stored : Stored) :
    (b.handsOut stored).record.requests = stored.record.requests := by
  cases b <;> rfl

@[simp] theorem Backend.pending?_handsOut (b : Backend) (stored : Stored) :
    (b.handsOut stored).record.pending? = stored.record.pending? := by
  cases b <;> rfl

@[simp] theorem Backend.request?_handsOut (b : Backend) (stored : Stored) (n : String) :
    (b.handsOut stored).record.request? n = stored.record.request? n := by
  cases b <;> rfl

end Editorial
