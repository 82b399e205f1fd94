import Editorial.Proofs.Pipeline.Reads

/-!
# What operations make of version histories

Of all operations only taking a version touches a history, and it adds one snapshot at
the end. Carrying out a request does not, whatever the request, and neither does
writing a version into another document.

A snapshot is looked for from the end of the history: the first one met that is not
later than the time that is asked for is in force. In a history whose snapshots were
taken one after another, the snapshot in force at the time of a snapshot is that
snapshot and no later one, so a snapshot is found by its own time.

## Main results

* `Snapshot.inForce?_of_mem` — a snapshot is found by its own time.
* `Effect.history_cases` — what an operation makes of the history of its document.
-/

namespace Editorial

/-! ## Looking snapshots up -/

namespace Snapshot

/-- A snapshot of a history that one was added to is the added one, or it was there. -/
theorem getElem?_concat_cases {history : List Snapshot} {added s : Snapshot} {i : Nat}
    (h : (history ++ [added])[i]? = some s) :
    history[i]? = some s ∨ (i = history.length ∧ s = added) := by
  rw [List.getElem?_append] at h
  by_cases hi : i < history.length
  · rw [if_pos hi] at h
    exact Or.inl h
  · rw [if_neg hi, List.getElem?_singleton] at h
    by_cases hlast : i - history.length = 0
    · rw [if_pos hlast] at h
      cases h
      exact Or.inr ⟨by omega, rfl⟩
    · rw [if_neg hlast] at h
      cases h

theorem Ordered.tail {s : Snapshot} {history : List Snapshot} (h : Ordered (s :: history)) :
    Ordered history := by
  cases history with
  | nil => trivial
  | cons next rest => exact h.2

/-- In an ordered history every snapshot is earlier than all that follow. -/
theorem Ordered.pairwise {history : List Snapshot} (h : Ordered history) :
    history.Pairwise fun a b => a.timestamp < b.timestamp := by
  induction history with
  | nil => exact List.Pairwise.nil
  | cons s history ih =>
      refine List.pairwise_cons.2 ⟨fun later hm => ?_, ih h.tail⟩
      cases history with
      | nil => cases hm
      | cons next rest =>
          rcases List.mem_cons.1 hm with rfl | hm
          · exact h.1
          · exact Instant.lt_trans h.1 ((List.pairwise_cons.1 (ih h.tail)).1 later hm)

/-- A snapshot is found by its own time. -/
theorem inForce?_of_mem {history : List Snapshot} (h : Ordered history) {s : Snapshot}
    (hs : s ∈ history) : inForce? history s.timestamp = some s := by
  obtain ⟨before, after, rfl⟩ := List.append_of_mem hs
  have hlater : ∀ later ∈ after.reverse, ¬ later.timestamp ≤ s.timestamp := by
    intro later hm
    have hsuffix := (List.pairwise_append.1 h.pairwise).2.1
    exact Instant.not_le.2 ((List.pairwise_cons.1 hsuffix).1 later (List.mem_reverse.1 hm))
  have hnone : after.reverse.find? (fun later => later.timestamp ≤ s.timestamp) = none :=
    List.find?_eq_none.2 fun later hm => by simpa using hlater later hm
  unfold inForce?
  rw [List.reverse_append, List.reverse_cons, List.append_assoc, List.find?_append, hnone,
    Option.none_or, List.singleton_append,
    List.find?_cons_of_pos (by simpa using Instant.le_refl s.timestamp)]

end Snapshot

/-! ## What becomes of histories -/

namespace Effect

variable {ctx : Context} {h : Handle} {op : Operation} {path : List Taken} {r : Record}
  {t : Transaction}

/-- An operation leaves the history of its document, or it takes a version and adds the
snapshot that it hands back. -/
theorem history_cases (he : Effect ctx h op path r t) :
    r.history = h.record.history ∨
      (op = .version ∧ ∃ s : Snapshot, r.history = h.record.history ++ [s] ∧
        s.name = Snapshot.nextName h.record.history ∧
        t.result = some (.ofSnapshot h.id s)) := by
  induction he with
  | version hu ht => exact Or.inr ⟨rfl, _, rfl, rfl, rfl⟩
  | @accept h id q op path r t hid hq hnow hop hallows hrest ih
  | @runScheduled h q op path r t hq hdue hop hallows hrest ih =>
      rcases ih with hkept | ⟨rfl, -⟩
      · exact Or.inl hkept
      · cases hk : q.kind <;> rw [hk] at hop <;> cases hop
  | _ => exact Or.inl rfl

/-- A version adds a snapshot of the unpublished content and hands it back. -/
theorem exists_snapshot (he : Effect ctx h .version path r t) :
    ∃ s : Snapshot, r.history = h.record.history ++ [s] ∧
      t = { result := some (.ofSnapshot h.id s) } := by
  cases he with
  | file hop => cases hop
  | version hu ht => exact ⟨_, rfl, rfl⟩

end Effect

end Editorial
