import Editorial.Proofs.Desk.Replacing
import Editorial.Proofs.Hints.Pending
import Editorial.Proofs.Pipeline.Catalogue
import Editorial.Proofs.Store.Reading

/-!
# Calls that read versions

The versions of a document can be listed, one of them can be looked at, and one can be put
back into the unpublished variant. The calls describe one and the same history: the one
that is loaded. It has the times, names and labels of the history that is stored, and its
contents as the store hands them out.

## Main results

* `System.reading_versions_agrees` — what the three calls answer and leave.
-/

namespace Editorial

/-! ## What is allowed -/

namespace Handle

variable {h : Handle}

theorem allows_retrieveVersion_of_history (hsound : h.record.IsSound)
    (hhistory : h.record.history ≠ []) (id? : Option String) :
    (Hints.ofHandle h).allows .retrieveVersion id? = true := by
  rw [Hints.allows_eq _ rfl]
  unfold allows
  rw [any_of_isSound hsound, List.isEmpty_eq_false_iff.2 hhistory]
  rfl

theorem allows_listVersions (hsound : h.record.IsSound) (id? : Option String) :
    (Hints.ofHandle h).allows .listVersions id? = true := by
  rw [Hints.allows_eq _ rfl]
  unfold allows
  rw [any_of_isSound hsound]
  rfl

theorem allows_restoreVersion_of_unpublished {u : Variant}
    (hu : h.variant? .unpublished = some u) (id? : Option String) :
    (Hints.ofHandle h).allows .restoreVersion id? = true := by
  have hhas : h.record.variants.has .unpublished = true := by
    rw [has_eq, hu]
    rfl
  rw [Hints.allows_eq _ rfl]
  unfold allows
  rw [hhas, Bool.and_true]
  exact List.any_eq_true.2 ⟨.unpublished, Stage.mem_all _, hhas⟩

end Handle

namespace System

variable {desk : Desk} {s : System} {id : String} {stored : Stored} {t : Instant}
  {sn : Snapshot}

/-- The snapshot in force among those that are loaded is the one in force among those that
are stored. -/
theorem inForce?_handTo (hsound : stored.record.IsSound)
    (hs : Snapshot.InForce stored.record.history t sn) (user : String) :
    Snapshot.inForce? (s.backend.handTo stored user).record.history t =
      some (s.backend.readsSnapshot sn) := by
  refine (Snapshot.inForce?_eq_some_iff (s.backend.isSound_handsOut hsound).history).2 ?_
  rw [Backend.history_handsOut]
  exact hs.map fun _ => rfl

theorem inForce?_handTo_none (hlate : ∀ sn ∈ stored.record.history, t < sn.timestamp)
    (user : String) :
    Snapshot.inForce? (s.backend.handTo stored user).record.history t = none := by
  rw [Snapshot.inForce?_eq_none_iff]
  intro sn hm
  rw [Backend.record_handTo, Backend.history_handsOut] at hm
  obtain ⟨sn', hm', rfl⟩ := List.mem_map.1 hm
  exact hlate sn' hm'

theorem history_handTo_ne_nil (h : stored.record.history ≠ []) (user : String) :
    (s.backend.handTo stored user).record.history ≠ [] := by
  rw [Backend.record_handTo, Backend.history_handsOut]
  simpa using h

/-! ## Listing -/

/-- The catalogue has one key for each snapshot that is stored, with its names. -/
theorem runAt_listVersions (htable : desk.table = .standard)
    (hget : s.store.get? id = some stored) (hreadable : s.backend.canRead stored.record = true)
    (hsound : stored.record.IsSound) (user : String) (readings : Readings) :
    (s.runAt readings (desk.process (.call id user .listVersions))).1 =
      some (.ok (.reply (.versions
        (stored.record.history.map fun sn => (sn.timestamp, sn.names))))) := by
  let loaded := s.backend.handsOut stored
  let arguments : Arguments := { now := readings.clock 0 }
  have hallows := Handle.allows_listVersions (h := s.backend.handTo stored user)
    (s.backend.isSound_handsOut hsound) arguments.request
  have hread : (desk.read id user .listVersions arguments).run.Leads [.load id (some loaded)]
      (some (.ok ⟨s.backend.handTo stored user, {}⟩)) :=
    (Desk.leads_read_iff htable).2 ⟨loaded, [], _, _, rfl, rfl, hallows, .listVersions⟩
  have hcatalogue : Snapshot.catalogue (s.backend.handTo stored user).record.history =
      stored.record.history.map fun sn => (sn.timestamp, sn.names) := by
    rw [Backend.record_handTo,
      Snapshot.catalogue_of_ordered (s.backend.isSound_handsOut hsound).history,
      Backend.history_handsOut, List.map_map]
    rfl
  have hl : (desk.answer id user .listVersions).run.Leads
      [.now (readings.clock 0), .load id (some loaded)]
      (some (.ok (.versions (stored.record.history.map fun sn => (sn.timestamp, sn.names))))) := by
    rw [← hcatalogue]
    unfold Desk.answer
    rw [Flow.run_bind]
    refine (Process.leads_ask_cons _ _ _ _ _).2 ?_
    show Process.Leads (desk.read id user .listVersions arguments >>= _ : Flow Reply).run _ _
    rw [Flow.run_bind, Process.leads_bind_some]
    exact ⟨_, [], _, (List.append_nil _).symm, hread, (Process.leads_done _ _ _).2 ⟨rfl, rfl⟩⟩
  exact runAt_of_reading hl
    (List.forall_mem_cons.2 ⟨trivial, List.forall_mem_singleton.2 trivial⟩)
    (List.forall_mem_cons.2 ⟨trivial, List.forall_mem_singleton.2
      (Backend.load_of_canRead hget hreadable).symm⟩)
    ⟨rfl, trivial, trivial⟩

/-! ## Looking at a version -/

/-- The snapshot in force is handed out as it is loaded. -/
theorem runAt_retrieveVersion_inForce (htable : desk.table = .standard)
    (hfiled : s.store.Filed) (hget : s.store.get? id = some stored)
    (hreadable : s.backend.canRead stored.record = true) (hsound : stored.record.IsSound)
    (hs : Snapshot.InForce stored.record.history t sn) (user : String) (readings : Readings) :
    (s.runAt readings (desk.process (.call id user (.retrieveVersion t)))).1 =
      some (.ok (.reply (.document (.ofSnapshot id (s.backend.readsSnapshot sn))))) := by
  let loaded := s.backend.handsOut stored
  let h := s.backend.handTo stored user
  let arguments : Arguments := { now := readings.clock 0, timestamp := some t }
  have hid : h.id = id := (s.backend.id_handTo stored user).trans (hfiled id stored hget)
  have hallows := Handle.allows_retrieveVersion_of_history (h := h)
    (s.backend.isSound_handsOut hsound)
    (history_handTo_ne_nil (List.ne_nil_of_mem hs.mem) user) arguments.request
  have heffect : Effect ⟨arguments, desk.settings.folderCategory⟩ h .retrieveVersion []
      h.record { result := some (.ofSnapshot h.id (s.backend.readsSnapshot sn)) } :=
    .retrieveVersion rfl (inForce?_handTo hsound hs user)
  rw [hid] at heffect
  have hread :
      (desk.read id user .retrieveVersion arguments).run.Leads [.load id (some loaded)] _ :=
    (Desk.leads_read_iff htable).2 ⟨loaded, [], _, _, rfl, rfl, hallows, heffect⟩
  have hl : (desk.answer id user (.retrieveVersion t)).run.Leads
      [.now (readings.clock 0), .load id (some loaded)]
      (some (.ok (.document (.ofSnapshot id (s.backend.readsSnapshot sn))))) :=
    Desk.leads_fetch_read rfl (fun a => { a with timestamp := some t }) (readings.clock 0) hread rfl
  exact runAt_of_reading hl
    (List.forall_mem_cons.2 ⟨trivial, List.forall_mem_singleton.2 trivial⟩)
    (List.forall_mem_cons.2 ⟨trivial, List.forall_mem_singleton.2
      (Backend.load_of_canRead hget hreadable).symm⟩)
    ⟨rfl, trivial, trivial⟩

/-- Without a snapshot in force there is nothing to look at. -/
theorem exists_unchanged_retrieveVersion (htable : desk.table = .standard)
    (hfiled : s.store.Filed) (hget : s.store.get? id = some stored)
    (hreadable : s.backend.canRead stored.record = true) (hsound : stored.record.IsSound)
    (hhistory : stored.record.history ≠ [])
    (hlate : ∀ sn ∈ stored.record.history, t < sn.timestamp) (user : String)
    (readings : Readings) :
    ∃ s', s.runAt readings (desk.process (.call id user (.retrieveVersion t))) =
      (some (.error (.versionMissing id t)), s') ∧ SameData s s' := by
  let h := s.backend.handTo stored user
  let arguments : Arguments := { now := readings.clock 0, timestamp := some t }
  have hid : h.id = id := (s.backend.id_handTo stored user).trans (hfiled id stored hget)
  have hallows := Handle.allows_retrieveVersion_of_history (h := h)
    (s.backend.isSound_handsOut hsound) (history_handTo_ne_nil hhistory user) arguments.request
  have hfire :
      ((Table.standard.fire ⟨arguments, desk.settings.folderCategory⟩ .retrieveVersion).on
        ⟨h, {}⟩).Leads [] (some (.error (.versionMissing h.id t), ⟨h, {}⟩)) :=
    Table.leads_fire_retrieveVersion_missing hallows rfl (inForce?_handTo_none hlate user)
  rw [hid] at hfire
  exact exists_unchanged htable hget hreadable hfire
    (Desk.leads_fetch_error (fun a => { a with timestamp := some t }) _)
    (List.forall_mem_nil _) trivial

/-! ## Putting a version back -/

/-- The content of the snapshot in force is written into the unpublished variant. -/
theorem exists_replaces_restoreVersion (htable : desk.table = .standard)
    (hfiled : s.store.Filed) (hspread : s.store.Spread)
    (hget : s.store.get? id = some stored) (hreadable : s.backend.canRead stored.record = true)
    (hsound : stored.record.IsSound) (hs : Snapshot.InForce stored.record.history t sn)
    {u : Variant}
    (hu : stored.record.variants.get .unpublished = some u) (user : String)
    (readings : Readings) :
    let v : Variant := (s.backend.readsBack u).withContent (s.backend.readsContent sn.content)
      user (readings.clock 2)
    ∃ s', s.runAt readings (desk.process (.call id user (.restoreVersion t))) =
        (some (.ok (.reply (.document (.ofVariant id v)))), s') ∧
      s.Replaces id stored
        ((s.backend.handsOut stored).record.putVariant .unpublished (some v)) s' := by
  intro v
  let h := s.backend.handTo stored user
  let arguments : Arguments := { now := readings.clock 0, timestamp := some t }
  have hid : h.id = id := (s.backend.id_handTo stored user).trans (hfiled id stored hget)
  have hunpublished : h.variant? .unpublished = some (s.backend.readsBack u) := by
    rw [s.backend.variant?_handTo, hu]
    rfl
  have heffect : Effect ⟨arguments, desk.settings.folderCategory⟩ h .restoreVersion
      [.now (readings.clock 2)] (h.record.putVariant .unpublished (some v))
      { result := some (.ofVariant h.id v) } :=
    .restore rfl (inForce?_handTo hsound hs user) hunpublished
  rw [hid] at heffect
  have hcall : desk.answer id user (.restoreVersion t) =
    desk.fetch id user .restoreVersion fun a => { a with timestamp := some t } := rfl
  refine exists_replaces_fetch htable hfiled hspread hget hreadable hsound rfl hcall
    ⟨?_, heffect, ?_, rfl, rfl, rfl, rfl⟩ rfl ⟨rfl, trivial⟩
  · exact Handle.allows_restoreVersion_of_unpublished hunpublished _
  · exact List.forall_mem_singleton.2 fun _ => trivial

/-- Without a snapshot in force there is nothing to put back. -/
theorem exists_unchanged_restoreVersion (htable : desk.table = .standard)
    (hfiled : s.store.Filed) (hget : s.store.get? id = some stored)
    (hreadable : s.backend.canRead stored.record = true)
    (hlate : ∀ sn ∈ stored.record.history, t < sn.timestamp) {u : Variant}
    (hu : stored.record.variants.get .unpublished = some u) (user : String)
    (readings : Readings) :
    ∃ s', s.runAt readings (desk.process (.call id user (.restoreVersion t))) =
      (some (.error (.versionMissing id t)), s') ∧ SameData s s' := by
  let h := s.backend.handTo stored user
  let arguments : Arguments := { now := readings.clock 0, timestamp := some t }
  have hid : h.id = id := (s.backend.id_handTo stored user).trans (hfiled id stored hget)
  have hunpublished : h.variant? .unpublished = some (s.backend.readsBack u) := by
    rw [s.backend.variant?_handTo, hu]
    rfl
  have hfire :
      ((Table.standard.fire ⟨arguments, desk.settings.folderCategory⟩ .restoreVersion).on
        ⟨h, {}⟩).Leads [] (some (.error (.versionMissing h.id t), ⟨h, {}⟩)) :=
    Table.leads_fire_restoreVersion_missing
      (Handle.allows_restoreVersion_of_unpublished hunpublished _) rfl
      (inForce?_handTo_none hlate user)
  rw [hid] at hfire
  exact exists_unchanged htable hget hreadable hfire
    (Desk.leads_fetch_error (fun a => { a with timestamp := some t }) _)
    (List.forall_mem_nil _) trivial

/-! ## The calls agree -/

/-- What the user is told of the versions of the stored document at the time `t`, by calls
that run alone, and what comes of the document. -/
structure VersionsAgree (desk : Desk) (s : System) (id user : String) (stored : Stored)
    (t : Instant) : Prop where
  /-- The list has one key for each snapshot, with its name and labels. -/
  listed : ∀ readings, (s.runAt readings (desk.process (.call id user .listVersions))).1 =
    some (.ok (.reply (.versions
      (stored.record.history.map fun sn => (sn.timestamp, sn.names)))))
  keys : (stored.record.history.map Snapshot.timestamp).Nodup
  /-- Either no key is at or before `t`, or one of those that are is the greatest. -/
  decides : (∀ sn ∈ stored.record.history, t < sn.timestamp) ∨
    ∃ sn, Snapshot.InForce stored.record.history t sn
  /-- In the first case no version is found. -/
  missing : (∀ sn ∈ stored.record.history, t < sn.timestamp) → ∀ readings,
    (∃ s', s.runAt readings (desk.process (.call id user (.retrieveVersion t))) =
      (some (.error (.versionMissing id t)), s') ∧ SameData s s') ∧
    (stored.record.variants.has .unpublished = true →
      ∃ s', s.runAt readings (desk.process (.call id user (.restoreVersion t))) =
        (some (.error (.versionMissing id t)), s') ∧ SameData s s')
  /-- In the second case the version with that key is handed out. -/
  retrieved : ∀ sn, Snapshot.InForce stored.record.history t sn → ∀ readings,
    (s.runAt readings (desk.process (.call id user (.retrieveVersion t)))).1 =
      some (.ok (.reply (.document
        { handle := id
          variant := none
          stage := .unpublished
          content := s.backend.readsContent sn.content
          version := some sn.timestamp })))
  /-- It can be put back, and of the record that was loaded nothing changes besides. -/
  restored : ∀ sn, Snapshot.InForce stored.record.history t sn →
    ∀ u, stored.record.variants.get .unpublished = some u → ∀ readings,
      let v : Variant :=
        { s.backend.readsBack u with
          content := s.backend.readsContent sn.content
          modifiedAt := readings.clock 2
          modifiedBy := user }
      ∃ s', s.runAt readings (desk.process (.call id user (.restoreVersion t))) =
          (some (.ok (.reply (.document (.ofVariant id v)))), s') ∧
        s.Replaces id stored
          ((s.backend.handsOut stored).record.putVariant .unpublished (some v)) s'

/-- The calls about versions agree, for every stored document that passes its checks and has
a version, every user and every time, if the document can be loaded: in a table, if none of
its contents is nested deeper than `Payload.depthLimit` (`Backend.canRead_iff`).

Stores that were made by commits are filed and spread (`Store.Filed.commit`,
`Store.Spread.commit`). -/
theorem reading_versions_agrees (desk : Desk) (htable : desk.table = .standard) (s : System)
    (hfiled : s.store.Filed) (hspread : s.store.Spread) (id user : String) (stored : Stored)
    (hget : s.store.get? id = some stored) (hreadable : s.backend.canRead stored.record = true)
    (hcheck : stored.record.check = .ok ()) (hhistory : stored.record.history ≠ [])
    (t : Instant) : VersionsAgree desk s id user stored t := by
  have hsound := (Record.check_eq_ok_iff _).1 hcheck
  refine ⟨runAt_listVersions htable hget hreadable hsound user, ?_,
    Snapshot.late_or_exists_inForce hsound.history t, fun hlate readings => ⟨?_, fun hu => ?_⟩,
    fun sn hs => runAt_retrieveVersion_inForce htable hfiled hget hreadable hsound hs user,
    fun sn hs u hu =>
      exists_replaces_restoreVersion htable hfiled hspread hget hreadable hsound hs hu user⟩
  · refine List.pairwise_map.2 (hsound.history.pairwise.imp fun hlt he => ?_)
    rw [he] at hlt
    exact Instant.lt_irrefl _ hlt
  · exact exists_unchanged_retrieveVersion htable hfiled hget hreadable hsound hhistory hlate user
      readings
  · obtain ⟨u, hu⟩ := Option.isSome_iff_exists.1 hu
    exact exists_unchanged_restoreVersion htable hfiled hget hreadable hlate hu user readings

/-- A time between two versions, and the document is filed with a published variant. -/
theorem reading_versions_agrees_between :
    let first : Instant := ⟨1, 0, by decide, by decide, by decide⟩
    let between : Instant := ⟨2, 0, by decide, by decide, by decide⟩
    let second : Instant := ⟨3, 0, by decide, by decide, by decide⟩
    let v (stage : Stage) : Variant := .make "v" stage (.ofJson (.integer 7)) "ann" .epoch
    let record : Record :=
      { (Record.single "a" (some ⟨"news", "front"⟩) (v .unpublished)).putVariant .published
          (some (v .published)) with
        history := [⟨first, "1.0", .empty, .ofJson (.integer 3)⟩,
          ⟨second, "1.1", .empty, .ofJson (.integer 5)⟩] }
    let s : System := { store := Keyed.ofList [("a", ⟨record, 5⟩)] }
    (s.store.Filed ∧ s.store.Spread ∧ s.store.get? "a" = some ⟨record, 5⟩ ∧
        s.backend.canRead record = true ∧ record.check = .ok () ∧ record.history ≠ []) ∧
      VersionsAgree {} s "a" "bob" ⟨record, 5⟩ between := by
  intro first between second v record s
  have hfiled : s.store.Filed := by decide +kernel
  have hspread : s.store.Spread := by decide +kernel
  have hget : s.store.get? "a" = some ⟨record, 5⟩ := by decide +kernel
  have hcheck : record.check = .ok () := by decide +kernel
  have hhistory : record.history ≠ [] := List.cons_ne_nil _ _
  exact ⟨⟨hfiled, hspread, hget, rfl, hcheck, hhistory⟩,
    reading_versions_agrees {} rfl s hfiled hspread "a" "bob" ⟨record, 5⟩ hget rfl hcheck hhistory
      _⟩

/-- In a table the version that is put back is not the one that was looked at: what is
loaded afterwards is a neighbour of it, in the unpublished variant and in the history. -/
theorem restored_version_drifts :
    let content (bits : UInt64) : Payload := .ofJson (.double ⟨bits⟩)
    let v : Variant := .make "v" .unpublished (content 4259304194031319137) "ann" .epoch
    let record : Record :=
      { Record.single "a" none v with
        history := [⟨.epoch, "1.0", .empty, content 4259304194031319137⟩] }
    let s : System := { backend := .stepwise, store := Keyed.ofList [("a", ⟨record, 1⟩)] }
    let readings : Readings := ⟨fun _ => .epoch, fun _ => ""⟩
    let run (call : Call) := s.runAt readings (Desk.process {} (.call "a" "bob" call))
    let handed? : Option Payload :=
      match (run (.retrieveVersion .epoch)).1 with
      | some (.ok (.reply (.document d))) => some d.content
      | _ => none
    let contents? (s : System) : Option (Option Payload × List Payload) :=
      (s.backend.loaded? s.store "a").map fun stored =>
        ((stored.record.variants.get .unpublished).map Variant.content,
          stored.record.history.map Snapshot.content)
    let before := content 4259304194031319138
    let after := content 4259304194031319137
    handed? = some before ∧ contents? s = some (some before, [before]) ∧
      contents? (run (.restoreVersion .epoch)).2 = some (some after, [after]) ∧
      before ≠ after := by
  decide +kernel

end System

end Editorial
