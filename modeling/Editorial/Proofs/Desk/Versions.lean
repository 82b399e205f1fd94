import Editorial.Proofs.Desk.Catalogue

/-!
# Calls about versions

A snapshot that is in the history of a stored document can be had by its own time, by
whomever: it can be looked at, and it can be put back into the unpublished variant if
there is one. What comes back of its content is what the store hands out.

## Main results

* `System.runAt_retrieveVersion`, `System.runAt_restoreVersion` — a snapshot of a stored
  document is found by its time.
-/

namespace Editorial

namespace System

variable {desk : Desk} {s : System} {id : String} {stored : Stored} {sn : Snapshot}

/-- A snapshot of a stored document can be looked at by its own time. -/
theorem runAt_retrieveVersion (htable : desk.table = .standard) (hfiled : s.store.Filed)
    (hget : s.store.get? id = some stored) (hreadable : s.backend.canRead stored.record = true)
    (hsound : stored.record.IsSound) (hs : sn ∈ stored.record.history) (user : String)
    (readings : Readings) :
    (s.runAt readings (desk.process (.call id user (.retrieveVersion sn.timestamp)))).1 =
      some (.ok (.reply (.document (.ofSnapshot id (s.backend.readsSnapshot sn))))) :=
  runAt_retrieveVersion_inForce htable hfiled hget hreadable hsound (.of_mem hs) user readings

/-- It can be put back into the unpublished variant by its own time. -/
theorem runAt_restoreVersion (htable : desk.table = .standard) (hfiled : s.store.Filed)
    (hspread : s.store.Spread) (hget : s.store.get? id = some stored)
    (hreadable : s.backend.canRead stored.record = true) (hsound : stored.record.IsSound)
    (hs : sn ∈ stored.record.history) (hu : stored.record.variants.has .unpublished = true)
    (user : String) (readings : Readings) :
    ∃ s' after v, s.runAt readings (desk.process (.call id user (.restoreVersion sn.timestamp))) =
        (some (.ok (.reply (.document (.ofVariant id v)))), s') ∧
      s'.store.get? id = some after ∧ after.record.variants.get .unpublished = some v ∧
      v.content = s.backend.readsContent sn.content := by
  obtain ⟨u, hu⟩ := Option.isSome_iff_exists.1 hu
  obtain ⟨s', hrun, hreplaces⟩ := exists_replaces_restoreVersion htable hfiled hspread hget
    hreadable hsound (.of_mem hs) hu user readings
  refine ⟨s', _, _, hrun, hreplaces.replaced, ?_, rfl⟩
  rw [Record.get_putVariant, if_pos rfl]

end System

end Editorial
