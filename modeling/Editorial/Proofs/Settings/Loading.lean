import Editorial.Proofs.Settings.Layers

/-!
# Loading settings

Reading a file, overriding what it says and checking the outcome can each go wrong, and a desk
must be given settings whatever happens. Settings are loaded if the file can be read and what
its layers amount to is usable. In every other case the default settings are overridden
instead, and if these cannot be used either, the default settings are taken as they are.

The second attempt is meant for a file that is missing or broken, but nothing asks why the
first one failed. A file that is usable by itself is dropped as well if the environment makes
it unusable. Of what the environment holds only the number of retries can do that
(`Overrides.isUsable_iff`), since a category that is blank is passed over; and then it makes
the default settings just as unusable.

## Main results

* `loaded_settings` — what is loaded is usable and comes from its layers, and there are always
  usable settings.
* `usable_file_kept_or_dropped` — a usable file is kept under the environment, or else only the
  default settings remain.
-/

namespace Editorial

/-- The environment asks for no number of retries, or for one that can be used. -/
def Environment.IsWithinLimit (env : Environment) : Prop :=
  ∀ n : UInt32, env.HoldsNat Environment.retriesName n.toNat →
    1 ≤ n.toNat ∧ n.toNat ≤ SettingsFault.mostRetries

namespace Settings

variable {env : Environment} {file : Option String} {text : String} {base s : Settings}

/-! ## Loading -/

/-- `s` is what a file says, under what the environment holds. -/
def IsLayered (file : Option String) (env : Environment) (s : Settings) : Prop :=
  ∃ text fields base, file = some text ∧ Toml.read? text = some fields ∧
    WrittenIn fields base ∧ Overrides env base s

/-- From a file that can be read the settings are loaded if overriding leaves them usable. -/
theorem load_eq_ok_iff_of_parse (hparse : parse text = .ok base) :
    load (some text) env = .ok s ↔ Overrides env base s ∧ s.check = .ok () := by
  have hload : load (some text) env =
      parse text >>= fun base => (base.overridden env).check >>= fun _ =>
        pure (base.overridden env) := rfl
  rw [hload, hparse, overrides_iff]
  show ((base.overridden env).check >>= fun _ => pure (base.overridden env)) = .ok s ↔ _
  constructor
  · intro h
    cases hcheck : (base.overridden env).check with
    | error e =>
        rw [hcheck] at h
        cases h
    | ok _ =>
        rw [hcheck] at h
        cases h
        exact ⟨rfl, hcheck⟩
  · rintro ⟨rfl, hcheck⟩
    rw [hcheck]
    rfl

/-- Settings are loaded if they come from their layers and are usable. -/
theorem load_eq_ok_iff : load file env = .ok s ↔ IsLayered file env s ∧ s.check = .ok () := by
  constructor
  · intro h
    cases file with
    | none => cases h
    | some text =>
        cases hparse : parse text with
        | error e =>
            have hload : load (some text) env = parse text >>= _ := rfl
            rw [hload, hparse] at h
            cases h
        | ok base =>
            obtain ⟨hover, hcheck⟩ := (load_eq_ok_iff_of_parse hparse).1 h
            obtain ⟨fields, hread, hwritten⟩ := parse_eq_ok_iff.1 hparse
            exact ⟨⟨text, fields, base, rfl, hread, hwritten, hover⟩, hcheck⟩
  · rintro ⟨⟨text, fields, base, rfl, hread, hwritten, hover⟩, hcheck⟩
    have hparse : parse text = .ok base := parse_eq_ok_iff.2 ⟨fields, hread, hwritten⟩
    exact (load_eq_ok_iff_of_parse hparse).2 ⟨hover, hcheck⟩

theorem loadOrDefault_of_ok (h : load file env = .ok s) : loadOrDefault file env = s := by
  unfold loadOrDefault
  rw [h]

/-- What is used instead of settings that were not loaded: the environment over the default
settings, or these alone if it makes them unusable. -/
theorem loadOrDefault_of_error (h : ∀ s, load file env ≠ .ok s) :
    ((overridden {} env).check = .ok () ∧ loadOrDefault file env = overridden {} env) ∨
      ((overridden {} env).check ≠ .ok () ∧ loadOrDefault file env = {}) := by
  unfold loadOrDefault
  cases hload : load file env with
  | ok s => exact absurd hload (h s)
  | error e =>
      dsimp only
      cases hcheck : (overridden {} env).check with
      | ok _ => exact .inl ⟨rfl, rfl⟩
      | error e' => exact .inr ⟨nofun, rfl⟩

/-- There are always usable settings. -/
theorem check_loadOrDefault (file : Option String) (env : Environment) :
    (loadOrDefault file env).check = .ok () := by
  by_cases h : ∃ s, load file env = .ok s
  · obtain ⟨s, hs⟩ := h
    rw [loadOrDefault_of_ok hs]
    exact (load_eq_ok_iff.1 hs).2
  · rcases loadOrDefault_of_error (not_exists.1 h) with ⟨hcheck, heq⟩ | ⟨_, heq⟩
    · rw [heq]
      exact hcheck
    · rw [heq]
      exact (check_eq_ok_iff _).2 isUsable_default

/-- Settings are loaded exactly if they are what the file says under what the environment
holds, and are usable. Those that were loaded are used, and in any case usable ones are. -/
theorem loaded_settings (file : Option String) (env : Environment) :
    (∀ s, load file env = .ok s ↔ IsLayered file env s ∧ s.check = .ok ()) ∧
      (loadOrDefault file env).check = .ok () ∧
      ∀ s, load file env = .ok s → loadOrDefault file env = s :=
  ⟨fun _ => load_eq_ok_iff, check_loadOrDefault file env, fun _ => loadOrDefault_of_ok⟩

/-- The file that the instances below are about. -/
theorem parse_backoff : parse "retry_backoff_ms = 25\n" = .ok { backoff := 25 } := by
  decide +kernel

/-- A file with a pause, under a number of retries between blanks and a pause that is none. -/
theorem loaded_settings_retries :
    let file := some "retry_backoff_ms = 25\n"
    let env : Environment := fun name =>
      if name = Environment.retriesName then some " +7\n"
      else if name = Environment.backoffName then some "soon" else none
    let s : Settings := { retries := 7, backoff := 25 }
    load file env = .ok s ∧ loadOrDefault file env = s := by
  intro file env s
  obtain ⟨fields, hread, hwritten⟩ := parse_eq_ok_iff.1 parse_backoff
  have hover : Overrides env { backoff := 25 } s := overrides_iff.2 (by decide +kernel)
  have hcheck : s.check = .ok () := (check_eq_ok_iff s).2 ⟨by decide, by decide, by decide⟩
  have hload : load file env = .ok s :=
    ((loaded_settings file env).1 s).2 ⟨⟨_, fields, _, rfl, hread, hwritten, hover⟩, hcheck⟩
  exact ⟨hload, (loaded_settings file env).2.2 s hload⟩

/-! ## Usable files -/

/-- The settings without a variable in the environment are the same. -/
structure KeepsUnset (env : Environment) (s t : Settings) : Prop where
  retries : env Environment.retriesName = none → t.retries = s.retries
  backoff : env Environment.backoffName = none → t.backoff = s.backoff
  folderCategory : env Environment.folderCategoryName = none → t.folderCategory = s.folderCategory
  eventCapacity : t.eventCapacity = s.eventCapacity
  busyTimeout : t.busyTimeout = s.busyTimeout

/-- Overriding keeps what is not set. -/
theorem Overrides.keepsUnset (h : Overrides env base s) : KeepsUnset env base s where
  retries hunset := h.retries.cases.elim (fun hn => absurd hunset hn.isSet) And.right
  backoff hunset := h.backoff.cases.elim (fun hn => absurd hunset hn.isSet) And.right
  folderCategory hunset := h.folderCategory.cases.elim (fun ht => absurd hunset ht.isSet) And.right
  eventCapacity := h.eventCapacity
  busyTimeout := h.busyTimeout

/-- Of what overrides usable settings only the number of retries can make them unusable. -/
theorem Overrides.isUsable_iff (h : Overrides env base s) (hbase : base.IsUsable) :
    s.IsUsable ↔ env.IsWithinLimit := by
  constructor
  · intro hs n hn
    rcases h.retries.cases with hheld | ⟨hnone, _⟩
    · rw [hn.unique hheld]
      exact hs.retries
    · exact absurd hn (hnone n)
  · intro hlimit
    refine ⟨?_, ?_, ?_⟩
    · rcases h.retries.cases with hheld | ⟨_, heq⟩
      · exact hlimit _ hheld
      · rw [heq]
        exact hbase.retries
    · rw [h.eventCapacity]
      exact hbase.capacity
    · rcases h.folderCategory.cases with hheld | ⟨_, heq⟩
      · exact hheld.allBlank
      · rw [heq]
        exact hbase.category

/-- With a usable file the settings are the file's under the environment; or else the
environment asks for a number of retries that cannot be used, and all that is left are the
default settings. -/
theorem usable_file_kept_or_dropped (text : String) (env : Environment) (s : Settings)
    (hparse : parse text = .ok s) (hcheck : s.check = .ok ()) :
    (env.IsWithinLimit → Overrides env s (loadOrDefault (some text) env) ∧
      KeepsUnset env s (loadOrDefault (some text) env)) ∧
    (¬ env.IsWithinLimit → loadOrDefault (some text) env = {}) := by
  have hover : Overrides env s (s.overridden env) := overrides_iff.2 rfl
  have hdefault : Overrides env {} (overridden {} env) := overrides_iff.2 rfl
  have husableFile : s.IsUsable := (check_eq_ok_iff s).1 hcheck
  have husable := hover.isUsable_iff husableFile
  constructor
  · intro hlimit
    have hload : load (some text) env = .ok (s.overridden env) :=
      (load_eq_ok_iff_of_parse hparse).2 ⟨hover, (check_eq_ok_iff _).2 (husable.2 hlimit)⟩
    rw [loadOrDefault_of_ok hload]
    exact ⟨hover, hover.keepsUnset⟩
  · intro hlimit
    have hload : ∀ t, load (some text) env ≠ .ok t := fun t ht => by
      obtain ⟨ht, hchecked⟩ := (load_eq_ok_iff_of_parse hparse).1 ht
      exact hlimit ((ht.isUsable_iff husableFile).1 ((check_eq_ok_iff t).1 hchecked))
    rcases loadOrDefault_of_error hload with ⟨hchecked, _⟩ | ⟨_, heq⟩
    · exact absurd ((hdefault.isUsable_iff isUsable_default).1 ((check_eq_ok_iff _).1 hchecked))
        hlimit
    · exact heq

/-- A file with a pause is kept if the environment asks for seven retries. -/
theorem usable_file_kept :
    let text := "retry_backoff_ms = 25\n"
    let env : Environment := fun name => if name = Environment.retriesName then some "7" else none
    let s : Settings := { backoff := 25 }
    parse text = .ok s ∧ s.check = .ok () ∧ env.IsWithinLimit ∧
      KeepsUnset env s (loadOrDefault (some text) env) := by
  intro text env s
  have hparse : parse text = .ok s := parse_backoff
  have hcheck : s.check = .ok () := (check_eq_ok_iff s).2 ⟨by decide, by decide, by decide⟩
  have hlimit : env.IsWithinLimit := fun n hn => by
    have hseven : env.nat? Environment.retriesName UInt32.size = some 7 := by decide +kernel
    have hfound := Environment.nat?_eq_some_iff.2 ⟨hn, n.toNat_lt_size⟩
    rw [← Option.some.inj (hseven.symm.trans hfound)]
    decide
  have hkept := (usable_file_kept_or_dropped text env s hparse hcheck).1 hlimit
  exact ⟨hparse, hcheck, hlimit, hkept.2⟩

/-- The pause of a usable file is lost if the environment asks for no retries, although it has
no variable for the pause. -/
theorem usable_file_dropped :
    let text := "retry_backoff_ms = 25\n"
    let env : Environment := fun name => if name = Environment.retriesName then some "0" else none
    let s : Settings := { backoff := 25 }
    parse text = .ok s ∧ s.check = .ok () ∧ env Environment.backoffName = none ∧
      (loadOrDefault (some text) env).backoff = 10 ∧
      ¬ KeepsUnset env s (loadOrDefault (some text) env) := by
  intro text env s
  have hparse : parse text = .ok s := parse_backoff
  have hcheck : s.check = .ok () := (check_eq_ok_iff s).2 ⟨by decide, by decide, by decide⟩
  have hunset : env Environment.backoffName = none := by decide
  have hlost : (loadOrDefault (some text) env).backoff = 10 := by decide +kernel
  refine ⟨hparse, hcheck, hunset, hlost, fun hkept => ?_⟩
  have hsame : (10 : UInt64) = 25 := hlost.symm.trans (hkept.backoff hunset)
  exact absurd hsame (by decide)

end Settings

end Editorial
