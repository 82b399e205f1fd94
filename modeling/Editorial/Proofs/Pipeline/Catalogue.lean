import Editorial.Proofs.Pipeline.History
import Editorial.Proofs.Pipeline.Outcome

/-!
# Two readings of a history

A history is read in two ways that share no code. A search from its end looks for the
first snapshot that is not too late; a catalogue is built from its beginning by entering
the names of each snapshot under its time, in a list kept in order. In a history whose
snapshots were taken one after another they describe the same: each snapshot has a key of
its own in the catalogue, in the order of the history, and the search ends at the snapshot
with the greatest key that is not too late, and without one exactly if there is no such
key.

## Main results

* `Snapshot.catalogue_of_ordered` — the catalogue lists the history.
* `Snapshot.inForce?_eq_some_iff`, `Snapshot.inForce?_eq_none_iff` — what the search
  finds.
* `Table.leads_fire_restoreVersion_missing`, `Table.leads_fire_retrieveVersion_missing` —
  the operations fail where the search does.
-/

namespace Editorial

namespace Snapshot

variable {history : List Snapshot} {t : Instant} {s s' : Snapshot}

/-! ## The catalogue -/

/-- Names for a time after all others are entered at the end. -/
theorem enter_of_later {names : Names} {entries : List (Instant × Names)}
    (h : ∀ entry ∈ entries, entry.1 < t) : enter t names entries = entries ++ [(t, names)] := by
  induction entries with
  | nil => rfl
  | cons entry rest ih =>
      have hfirst : entry.1 < t := h entry (List.mem_cons_self ..)
      have hnot : ¬ t < entry.1 := Instant.not_lt.2 (Instant.le_of_lt hfirst)
      have hne : t ≠ entry.1 := by
        rintro rfl
        exact Instant.lt_irrefl _ hfirst
      rw [enter, if_neg hnot, if_neg hne, ih fun other hm => h other (List.mem_cons_of_mem _ hm)]
      rfl

/-- Entering snapshots in the order of their times, all after the entries, adds one entry for
each. -/
theorem foldl_enter {entries : List (Instant × Names)}
    (hordered : history.Pairwise fun a b => a.timestamp < b.timestamp)
    (hlater : ∀ entry ∈ entries, ∀ s ∈ history, entry.1 < s.timestamp) :
    history.foldl (fun entries s => enter s.timestamp s.names entries) entries =
      entries ++ history.map fun s => (s.timestamp, s.names) := by
  induction history generalizing entries with
  | nil => exact (List.append_nil entries).symm
  | cons s rest ih =>
      obtain ⟨hs, hrest⟩ := List.pairwise_cons.1 hordered
      have henter : enter s.timestamp s.names entries = entries ++ [(s.timestamp, s.names)] :=
        enter_of_later fun entry hm => hlater entry hm s (List.mem_cons_self ..)
      rw [List.foldl_cons, henter, ih hrest, List.append_assoc]
      · rfl
      · intro entry hm s' hs'
        rcases List.mem_append.1 hm with hm | hm
        · exact hlater entry hm s' (List.mem_cons_of_mem _ hs')
        · rw [List.mem_singleton.1 hm]
          exact hs s' hs'

/-- The catalogue of an ordered history has one entry for each snapshot, in the same
order. -/
theorem catalogue_of_ordered (h : Ordered history) :
    catalogue history = history.map fun s => (s.timestamp, s.names) :=
  foldl_enter h.pairwise fun _ hm => nomatch hm

/-! ## The search -/

/-- The snapshot is the last one of the history that was taken at or before `t`. -/
structure InForce (history : List Snapshot) (t : Instant) (s : Snapshot) : Prop where
  mem : s ∈ history
  taken : s.timestamp ≤ t
  last : ∀ other ∈ history, other.timestamp ≤ t → other.timestamp ≤ s.timestamp

/-- A snapshot is in force at its own time. -/
theorem InForce.of_mem (hs : s ∈ history) : InForce history s.timestamp s :=
  ⟨hs, Instant.le_refl _, fun _ _ hother => hother⟩

theorem inForce?_eq_none_iff :
    inForce? history t = none ↔ ∀ s ∈ history, t < s.timestamp := by
  unfold inForce?
  rw [List.find?_eq_none]
  constructor
  · intro h s hs
    exact Instant.not_le.1 (by simpa using h s (List.mem_reverse.2 hs))
  · intro h s hs
    simpa using Instant.not_le.2 (h s (List.mem_reverse.1 hs))

theorem inForce_of_inForce? (h : Ordered history) (hs : inForce? history t = some s) :
    InForce history t s := by
  unfold inForce? at hs
  obtain ⟨htaken, after, before, hsplit, hafter⟩ := List.find?_eq_some_iff_append.1 hs
  have hreverse := congrArg List.reverse hsplit
  rw [List.reverse_reverse, List.reverse_append, List.reverse_cons, List.append_assoc] at hreverse
  have hpairs := h.pairwise
  rw [hreverse] at hpairs
  refine ⟨?_, by simpa using htaken, fun other hm hother => ?_⟩
  · rw [hreverse]
    exact List.mem_append_right _ (List.mem_cons_self ..)
  · rw [hreverse] at hm
    rcases List.mem_append.1 hm with hbefore | hlate
    · exact Instant.le_of_lt
        ((List.pairwise_append.1 hpairs).2.2 other hbefore s (List.mem_cons_self ..))
    · rcases List.mem_cons.1 hlate with rfl | hlate
      · exact Instant.le_refl _
      · have hnot := hafter other (List.mem_reverse.1 hlate)
        simp [hother] at hnot

/-- Two snapshots of an ordered history that were taken at one time are the same. -/
theorem eq_of_timestamp_eq (h : Ordered history) (hs : s ∈ history) (hs' : s' ∈ history)
    (ht : s.timestamp = s'.timestamp) : s = s' := by
  have hfound := inForce?_of_mem h hs
  rw [ht, inForce?_of_mem h hs'] at hfound
  exact (Option.some.inj hfound).symm

/-- The search in an ordered history finds the last snapshot taken at or before `t`. -/
theorem inForce?_eq_some_iff (h : Ordered history) :
    inForce? history t = some s ↔ InForce history t s := by
  refine ⟨inForce_of_inForce? h, fun hs => ?_⟩
  cases hfound : inForce? history t with
  | none => exact absurd hs.taken (Instant.not_le.2 (inForce?_eq_none_iff.1 hfound s hs.mem))
  | some s' =>
      have hs' := inForce_of_inForce? h hfound
      have htime : s'.timestamp = s.timestamp :=
        Instant.le_antisymm (hs.last s' hs'.mem hs'.taken) (hs'.last s hs.mem hs.taken)
      rw [eq_of_timestamp_eq h hs'.mem hs.mem htime]

/-- Either no snapshot was taken in time, or one of those that were is the last. -/
theorem late_or_exists_inForce (h : Ordered history) (t : Instant) :
    (∀ s ∈ history, t < s.timestamp) ∨ ∃ s, InForce history t s := by
  cases hfound : inForce? history t with
  | none => exact Or.inl (inForce?_eq_none_iff.1 hfound)
  | some s => exact Or.inr ⟨s, inForce_of_inForce? h hfound⟩

/-- Times are not touched by a change of contents, so the same place is found. -/
theorem InForce.map {f : Snapshot → Snapshot} (hf : ∀ s, (f s).timestamp = s.timestamp)
    (h : InForce history t s) : InForce (history.map f) t (f s) := by
  refine ⟨List.mem_map_of_mem h.mem, (hf s).symm ▸ h.taken, fun other hm hother => ?_⟩
  obtain ⟨s', hs', rfl⟩ := List.mem_map.1 hm
  rw [hf] at hother ⊢
  rw [hf]
  exact h.last s' hs' hother

end Snapshot

/-! ## Operations that find no snapshot -/

namespace Table

open Process

variable {ctx : Context} {h : Handle} {t : Instant}

theorem leads_fire_retrieveVersion_missing
    (ha : (Hints.ofHandle h).allows .retrieveVersion ctx.arguments.request = true)
    (ht : ctx.arguments.timestamp = some t)
    (hs : Snapshot.inForce? h.record.history t = none) :
    ((standard.fire ctx .retrieveVersion).on ⟨h, {}⟩).Leads []
      (some (.error (.versionMissing h.id t), ⟨h, {}⟩)) := by
  unfold fire depthLimit
  rw [on_standard_single ha rfl, Task.run, Task.on_runRetrieveVersion, Task.on_namedSnapshot]
  simp only [ht, hs, bind_done]
  exact (leads_done _ _ _).2 ⟨rfl, rfl⟩

theorem leads_fire_restoreVersion_missing
    (ha : (Hints.ofHandle h).allows .restoreVersion ctx.arguments.request = true)
    (ht : ctx.arguments.timestamp = some t)
    (hs : Snapshot.inForce? h.record.history t = none) :
    ((standard.fire ctx .restoreVersion).on ⟨h, {}⟩).Leads []
      (some (.error (.versionMissing h.id t), ⟨h, {}⟩)) := by
  obtain ⟨u, hu⟩ := Handle.exists_unpublished_of_allows (by simp)
    ((Hints.allows_eq h rfl _).symm.trans ha)
  unfold fire depthLimit
  rw [on_standard_single ha (rule_of_unpublished .restoreVersion (by simp) hu), Task.run,
    Task.on_runRestoreVersion, Task.on_namedSnapshot]
  simp only [ht, hs, bind_done]
  exact (leads_done _ _ _).2 ⟨rfl, rfl⟩

end Table

end Editorial
