import Editorial.Proofs.Hints.Agreement

/-!
# Copying a document

The guard of copying asks for two things: that the document is filed, and that it has some
variant. The task asks for more. It takes the content of the unpublished variant, or else
of the published one, and never looks at the draft. A sound record may hold a draft and
nothing else, as every document that is made as a draft does until it is committed; its
hints say that it may be copied, and the copy fails even though the destination is in
order. Everywhere else the two agree.

## Main results

* `firing_copy` — at a destination that is in order, what the hints allow to be copied is
  copied, unless it is a draft and nothing else.
* `firing_copy_lone_draft` — a draft alone is not copied.
-/

namespace Editorial

/-- The variant that a copy takes its content from. -/
def Handle.copied? (h : Handle) : Option Variant :=
  (h.variant? .unpublished).or (h.variant? .published)

/-- The record `copy` is a new document `id`, filed at `location`, with a single variant: an
unpublished one with the content `content`. -/
structure Record.IsCopy (id : String) (location : Location) (content : Payload)
    (copy : Record) : Prop where
  id : copy.id = id
  location : copy.location = some location
  variants : ∃ u : Variant, copy.variants = { unpublished := some u } ∧ u.stage = .unpublished ∧
    u.content = content
  requests : copy.requests = []
  history : copy.history = []

/-- How copying the document of `h` to a free place ends, if the copy is given the name `id`. -/
structure CopyEnds (id : String) (location : Location) (h : Handle)
    (ended : Option (Except Failure Unit × Work)) : Prop where
  copied : ∀ v, h.copied? = some v → ∃ copy : Record, copy.IsCopy id location v.content ∧
    ended = some (.ok (), ⟨h, { created := [id], staged := [.put copy none] }⟩)
  onlyDraft : h.copied? = none → (∃ d, h.record.variants = { draft := some d }) ∧
    ended = some (.error (.state (.contentMissing h.id)), ⟨h, {}⟩)

/-- The container takes documents, and no record is filed there under the name. -/
structure System.Receives (s : System) (ctx : Context) (container name : String) : Prop where
  embeds : ∃ folder, s.folders.folder? ctx.category container = some folder ∧
    folder.embeds = true
  free : ∀ id stored, s.store.get? id = some stored →
    stored.record.location ≠ some ⟨container, name⟩

/-- A place that no stored record names is answered with none. -/
theorem Store.find?_eq_none {s : Store} {location : Location}
    (hfree : ∀ id stored, s.get? id = some stored → stored.record.location ≠ some location) :
    s.find? location = none := by
  rw [find?, Option.map_eq_none_iff, List.find?_eq_none]
  rintro ⟨id, stored⟩ hmem
  have hget : s.get? id = some stored := (Keyed.get?_eq_some_iff s id stored).2 hmem
  simpa using hfree id stored hget

/-- What has a variant, but none to copy, has a draft and nothing else. -/
theorem Handle.exists_lone_draft {h : Handle} {op : Operation} (ha : h.allows op = true)
    (hnone : h.copied? = none) : ∃ d, h.record.variants = { draft := some d } := by
  obtain ⟨hu, hp⟩ := Option.or_eq_none_iff.1 hnone
  cases hd : h.variant? .draft with
  | none =>
      obtain ⟨p, hp'⟩ := exists_published_of_any ha hd hu
      rw [hp] at hp'
      cases hp'
  | some d =>
      refine ⟨d, Variants.ext fun stage => ?_⟩
      cases stage with
      | draft => exact hd
      | unpublished => exact hu
      | published => exact hp

section

variable {ctx : Context} {h : Handle} {container name : String}

/-- The task does not look at a draft. -/
theorem leads_copy_of_onlyDraft {folder : Folder}
    (ha : (Hints.ofHandle h).allows .copy ctx.arguments.request = true)
    (hc : ctx.arguments.destination = some container) (hn : ctx.arguments.newName = some name)
    (hembeds : folder.embeds = true) (hnone : h.copied? = none) :
    ((Table.standard.fire ctx .copy).on ⟨h, {}⟩).Leads
      [.folder ctx.category container (some folder), .find ⟨container, name⟩ none]
      (some (.error (.state (.contentMissing h.id)), ⟨h, {}⟩)) := by
  have hnone' : (h.variant? .unpublished).or (h.variant? .published) = none := hnone
  rw [Table.fire, Table.depthLimit, Table.on_standard_single ha rfl, Process.leads_map, Task.run,
    Task.on_runCopyDocument, Task.on_destination]
  refine ⟨some (.error (.state (.contentMissing h.id)), ⟨h, {}⟩), ?_, rfl⟩
  simp [hc, hn, hembeds, Task.on_requireVacant, Except.map, hnone']

variable (readings : Readings) (s : System)

theorem firing_copy_of_copied {v : Variant}
    (ha : (Hints.ofHandle h).allows .copy ctx.arguments.request = true)
    (hc : ctx.arguments.destination = some container) (hn : ctx.arguments.newName = some name)
    (hs : s.Receives ctx container name) (hv : h.copied? = some v) :
    ∃ copy : Record, copy.IsCopy (readings.names 2) ⟨container, name⟩ v.content ∧
      firing readings s ctx .copy h =
        some (.ok (), ⟨h, { created := [readings.names 2], staged := [.put copy none] }⟩) := by
  obtain ⟨folder, hfolder, hembeds⟩ := hs.embeds
  have hfind := Store.find?_eq_none hs.free
  have he : Effect ctx h .copy
      [.folder ctx.category container (some folder), .find ⟨container, name⟩ none,
        .fresh .handle (readings.names 2), .now (readings.clock 3),
        .fresh .variant (readings.names 4)] h.record _ :=
    .copy hc hn hembeds (Or.inl rfl) hv
  have hl := Table.leads_fire_iff.2 ⟨ha, _, _, rfl, he⟩
  refine ⟨_, ?_, firing_of_leads hl ?_ ?_⟩
  · exact ⟨rfl, rfl, ⟨_, rfl, rfl, rfl⟩, rfl, rfl⟩
  · simp [Taken.AnsweredBy, hfolder, hfind]
  · simp [Readings.Gives, Taken.ReadFrom]

theorem firing_copy_of_onlyDraft
    (ha : (Hints.ofHandle h).allows .copy ctx.arguments.request = true)
    (hc : ctx.arguments.destination = some container) (hn : ctx.arguments.newName = some name)
    (hs : s.Receives ctx container name) (hnone : h.copied? = none) :
    firing readings s ctx .copy h =
      some (.error (.state (.contentMissing h.id)), ⟨h, {}⟩) := by
  obtain ⟨folder, hfolder, hembeds⟩ := hs.embeds
  have hfind := Store.find?_eq_none hs.free
  refine firing_of_leads (leads_copy_of_onlyDraft ha hc hn hembeds hnone) ?_ ?_
  · simp [Taken.AnsweredBy, hfolder, hfind]
  · simp [Readings.Gives, Taken.ReadFrom]

/-- At a destination that is in order, what the hints allow to be copied is copied, unless it
is a draft and nothing else: then nothing is staged, and the document is said to have no
content. The name of the copy is asked for in the third step, after the folder and the place
were looked up. -/
theorem firing_copy (ha : (Hints.ofHandle h).allows .copy ctx.arguments.request = true)
    (hc : ctx.arguments.destination = some container) (hn : ctx.arguments.newName = some name)
    (hs : s.Receives ctx container name) :
    CopyEnds (readings.names 2) ⟨container, name⟩ h (firing readings s ctx .copy h) where
  copied _ hv := firing_copy_of_copied readings s ha hc hn hs hv
  onlyDraft hnone :=
    ⟨Handle.exists_lone_draft ((Hints.allows_eq h rfl _).symm.trans ha) hnone,
      firing_copy_of_onlyDraft readings s ha hc hn hs hnone⟩

end

/-- A system that keeps one record receives copies of it under another name. -/
theorem System.receives_alone (ctx : Context) {r : Record} {container name : String}
    (hname : r.location ≠ some ⟨container, name⟩) :
    System.Receives
      { store := Store.applyAll .empty [.put r none],
        folders := Folders.register .empty ctx.category container true }
      ctx container name := by
  refine ⟨⟨_, Folders.folder?_register_self _ _ _ _, rfl⟩, ?_⟩
  intro id stored hget
  rw [Store.applyAll, List.foldl_cons, List.foldl_nil, Store.get?_apply] at hget
  split at hget
  · cases hget
    exact hname
  · cases hget

/-- A published document that nobody edited since is copied. -/
theorem firing_copy_live :
    let p := Variant.make "v" .published .null "ann" .epoch
    let r := Record.single "d" (some ⟨"news", "back"⟩) p
    let h : Handle := ⟨r, 1, "bob"⟩
    let ctx : Context := ⟨{ destination := some "news", newName := some "front", now := .epoch },
      "folders"⟩
    let s : System := { store := Store.applyAll .empty [.put r none],
                        folders := Folders.register .empty "folders" "news" true }
    (Hints.ofHandle h).allows .copy ctx.arguments.request = true ∧
      s.Receives ctx "news" "front" ∧ h.copied? = some p ∧
      CopyEnds "w" ⟨"news", "front"⟩ h
        (firing ⟨fun _ => .epoch, fun _ => "w"⟩ s ctx .copy h) := by
  intro p r h ctx s
  have ha : (Hints.ofHandle h).allows .copy ctx.arguments.request = true := by decide
  have hs : s.Receives ctx "news" "front" :=
    System.receives_alone ctx (by decide : r.location ≠ some ⟨"news", "front"⟩)
  exact ⟨ha, hs, rfl, firing_copy ⟨fun _ => .epoch, fun _ => "w"⟩ s ha rfl rfl hs⟩

/-- The copy of a document that was made as a draft fails, although its record passes the
checks, its hints allow to copy it, and the destination is in order. -/
theorem firing_copy_lone_draft :
    let d := Variant.make "v" .draft .null "ann" .epoch
    let r := Record.single "d" (some ⟨"news", "back"⟩) (d.heldBy "ann")
    let h : Handle := ⟨r, 1, "ann"⟩
    let ctx : Context := ⟨{ destination := some "news", newName := some "front", now := .epoch },
      "folders"⟩
    let s : System := { store := Store.applyAll .empty [.put r none],
                        folders := Folders.register .empty "folders" "news" true }
    r.check = .ok () ∧ (Hints.ofHandle h).allows .copy ctx.arguments.request = true ∧
      s.Receives ctx "news" "front" ∧
      firing ⟨fun _ => .epoch, fun _ => "w"⟩ s ctx .copy h =
        some (.error (.state (.contentMissing "d")), ⟨h, {}⟩) := by
  intro d r h ctx s
  have ha : (Hints.ofHandle h).allows .copy ctx.arguments.request = true := by decide
  have hs : s.Receives ctx "news" "front" :=
    System.receives_alone ctx (by decide : r.location ≠ some ⟨"news", "front"⟩)
  exact ⟨rfl, ha, hs, firing_copy_of_onlyDraft _ s ha rfl rfl hs rfl⟩

end Editorial
