import Editorial.Proofs.Settings.Layers
import Editorial.Proofs.Toml.Document

/-!
# Rendered settings are read back

The text of settings has a line for each of them, so nothing of what is read back comes from
the defaults. What can stand in the way is a number that fits its setting and not the file:
settings count up to `2 ^ 64 - 1`, a file up to `2 ^ 63 - 1`. Such a number is not cut down on
writing; no text is made at all. The category may be any text, but only one without line
breaks, without control characters and without a mix of quotes is laid out in the usual way
(`Toml.quote`); what is said of any other is said of the layout chosen here.

## Main results

* `rendered_exactly` — settings are read back from their text, and if a file cannot hold them
  there is none.
-/

namespace Editorial

namespace Settings

/-! ## Rendering -/

/-- The numbers among the settings. -/
def numbers (s : Settings) : List Nat :=
  [s.retries.toNat, s.backoff.toNat, s.eventCapacity.toNat, s.busyTimeout.toNat]

/-- A file can hold the settings. -/
def IsStorable (s : Settings) : Prop := ∀ n ∈ s.numbers, n ≤ Toml.maxInteger

/-- What becomes of settings that are rendered. -/
structure RenderedExactly (s : Settings) : Prop where
  /-- If a file can hold them there is a text, from which they are read back. -/
  readsBack : s.IsStorable → ∃ text, s.render = .ok text ∧ parse text = .ok s
  /-- Otherwise rendering fails. -/
  refused : ¬ s.IsStorable → ∃ failure, s.render = .error failure ∧ failure.kind = .config
  /-- No text is ever read back as other settings. -/
  faithful : ∀ text, s.render = .ok text → parse text = .ok s

/-- The fields in the text of settings. -/
def writtenFields (s : Settings) (h : s.IsStorable) : List Toml.Field :=
  [.ofNat retriesKey (by decide) s.retries.toNat (h _ (by simp [numbers])),
    .ofNat backoffKey (by decide) s.backoff.toNat (h _ (by simp [numbers])),
    .ofText folderCategoryKey (by decide) s.folderCategory,
    .ofNat eventCapacityKey (by decide) s.eventCapacity.toNat (h _ (by simp [numbers])),
    .ofNat busyTimeoutKey (by decide) s.busyTimeout.toNat (h _ (by simp [numbers]))]

theorem render_of_isStorable {s : Settings} (h : s.IsStorable) :
    s.render = .ok (String.ofList ((s.writtenFields h).flatMap Toml.Field.chars)) := by
  have hnumber (n : Nat) (hn : n ∈ s.numbers) : Toml.integer? n = some (toString (n : Int)) :=
    Toml.integer?_of_le (h n hn)
  have htext : String.ofList ((s.writtenFields h).flatMap Toml.Field.chars) =
      Toml.line retriesKey (toString (s.retries.toNat : Int))
        ++ Toml.line backoffKey (toString (s.backoff.toNat : Int))
        ++ Toml.line folderCategoryKey (Toml.quote s.folderCategory)
        ++ Toml.line eventCapacityKey (toString (s.eventCapacity.toNat : Int))
        ++ Toml.line busyTimeoutKey (toString (s.busyTimeout.toNat : Int)) := by
    simp [writtenFields, Toml.Field.chars, Toml.Field.ofNat, Toml.Field.ofText, String.append_assoc]
  rw [htext]
  simp only [render, hnumber s.retries.toNat (by simp [numbers]),
    hnumber s.backoff.toNat (by simp [numbers]), hnumber s.eventCapacity.toNat (by simp [numbers]),
    hnumber s.busyTimeout.toNat (by simp [numbers])]
  rfl

theorem render_of_not_isStorable {s : Settings} (h : ¬ s.IsStorable) :
    s.render = .error (.settings .unrenderable) := by
  simp only [IsStorable, not_forall, Nat.not_le] at h
  obtain ⟨n, hn, hlarge⟩ := h
  have hnone : Toml.integer? n = none := Toml.integer?_of_lt hlarge
  simp only [numbers, List.mem_cons, List.not_mem_nil, or_false] at hn
  have hthrow : s.render = throw (.settings .unrenderable) := by
    rcases hn with rfl | rfl | rfl | rfl <;> simp [render, hnone]
  exact hthrow

theorem writtenIn_of_fields {s : Settings} {fields : Toml.Fields} (h : s.IsStorable)
    (hfields : ∀ f ∈ s.writtenFields h, Entries.lookup f.name fields = some f.node) :
    WrittenIn fields s := by
  simp only [writtenFields, List.forall_mem_cons] at hfields
  obtain ⟨hretries, hbackoff, hcategory, hcapacity, htimeout, -⟩ := hfields
  exact ⟨.written hretries, .written hbackoff, .written hcategory, .written hcapacity,
    .written htimeout⟩

/-- Settings are read back from their text, and if a file cannot hold them there is none. -/
theorem rendered_exactly (s : Settings) : RenderedExactly s := by
  have hread (h : s.IsStorable) : ∃ text, s.render = .ok text ∧ parse text = .ok s := by
    have hnames : ((s.writtenFields h).map Toml.Field.name).Nodup := by
      show keys.Nodup
      decide
    obtain ⟨fields, hfields, hmem⟩ := Toml.exists_read?_fields hnames
    exact ⟨_, render_of_isStorable h,
      parse_eq_ok_iff.2 ⟨fields, hfields, writtenIn_of_fields h hmem⟩⟩
  refine ⟨hread, fun h => ⟨_, render_of_not_isStorable h, rfl⟩, fun text htext => ?_⟩
  by_cases h : s.IsStorable
  · obtain ⟨written, hwritten, hparse⟩ := hread h
    rw [htext] at hwritten
    rw [Except.ok.inj hwritten]
    exact hparse
  · rw [render_of_not_isStorable h] at htext
    cases htext

end Settings

end Editorial
