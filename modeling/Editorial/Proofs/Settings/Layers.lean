import Editorial.Proofs.Text.Numerals
import Editorial.Settings.File

/-!
# Where settings come from

A setting is looked for in three places: in the environment, in the file, and among the
defaults. The first that has it decides, and here this is said without the readers:
`Environment.HoldsNat` and `Environment.HoldsText` tell what a variable holds from its text,
and `Filed` what a file has. A file differs from the environment in one thing. A variable that
cannot be read is passed over, and a field that cannot be read spoils the file, so that
`Layer` gives a value whatever the environment is and `Filed` only for some files.

## Main results

* `Settings.parse_eq_ok_iff` — the settings that a text is read as are those written in it.
* `Settings.overrides_iff` — overriding puts the environment over the settings.
-/

namespace Editorial

/-! ## The environment -/

namespace Environment

variable {env : Environment} {name : String}

/-- The variable holds the number `n`, perhaps with white space around it. -/
def HoldsNat (env : Environment) (name : String) (n : Nat) : Prop :=
  ∃ value core, env name = some value ∧ Text.Trims value.toList core ∧ Text.Writes core n

/-- The variable holds `text`, perhaps with white space around it, and `text` is not empty. -/
def HoldsText (env : Environment) (name text : String) : Prop :=
  text ≠ "" ∧ ∃ value, env name = some value ∧ Text.Trims value.toList text.toList

/-- A number is found if the variable holds it and it lies below the bound. -/
theorem nat?_eq_some_iff {bound n : Nat} :
    env.nat? name bound = some n ↔ env.HoldsNat name n ∧ n < bound := by
  have hread (value : String) : Text.readNat? bound (Text.trim value) = some n ↔
      (∃ core, Text.Trims value.toList core ∧ Text.Writes core n) ∧ n < bound := by
    rw [Text.readNat?_eq_some_iff, Text.trim, String.toList_ofList]
    simp only [Text.trims_iff, exists_eq_left']
  unfold nat? HoldsNat
  constructor
  · intro h
    obtain ⟨value, hvalue, h⟩ := Option.bind_eq_some_iff.1 h
    obtain ⟨⟨core, htrims, hwrites⟩, hbound⟩ := (hread value).1 h
    exact ⟨⟨value, core, hvalue, htrims, hwrites⟩, hbound⟩
  · rintro ⟨⟨value, core, hvalue, htrims, hwrites⟩, hbound⟩
    have hnumber := (hread value).2 ⟨⟨core, htrims, hwrites⟩, hbound⟩
    exact Option.bind_eq_some_iff.2 ⟨value, hvalue, hnumber⟩

/-- A text is found if the variable holds it. -/
theorem text?_eq_some_iff {text : String} :
    env.text? name = some text ↔ env.HoldsText name text := by
  have hread (value : String) :
      (if Text.allBlank value then none else some (Text.trim value)) = some text ↔
        text ≠ "" ∧ Text.Trims value.toList text.toList := by
    have hblank : Text.allBlank value = true ↔ Text.trimList value.toList = [] :=
      (Text.trimList_eq_nil_iff value.toList).symm
    rw [Text.trims_iff]
    constructor
    · intro h
      split at h
      · cases h
      · rename_i hfull
        cases h
        rw [hblank] at hfull
        rw [Text.trim, String.toList_ofList]
        exact ⟨fun hempty => hfull (by simpa using congrArg String.toList hempty), rfl⟩
    · rintro ⟨hne, htext⟩
      rw [if_neg fun hfull => hne (String.toList_eq_nil_iff.1 (htext ▸ hblank.1 hfull)), Text.trim,
        htext, String.ofList_toList]
  unfold text? HoldsText
  rw [Option.bind_eq_some_iff]
  simp only [hread, and_left_comm, exists_and_left]

theorem HoldsNat.isSet {n : Nat} (h : env.HoldsNat name n) : env name ≠ none := by
  obtain ⟨value, _, hvalue, _⟩ := h
  rw [hvalue]
  exact Option.some_ne_none value

/-- A variable holds one number at most. -/
theorem HoldsNat.unique {m n : Nat} (hm : env.HoldsNat name m) (hn : env.HoldsNat name n) :
    m = n :=
  Option.some.inj ((nat?_eq_some_iff.2 ⟨hm, Nat.lt_succ_of_le (Nat.le_max_left m n)⟩).symm.trans
    (nat?_eq_some_iff.2 ⟨hn, Nat.lt_succ_of_le (Nat.le_max_right m n)⟩))

theorem HoldsText.allBlank {text : String} (h : env.HoldsText name text) :
    Text.allBlank text = false := by
  obtain ⟨hne, _, _, htrims⟩ := h
  exact htrims.all_isBlank fun hnil => hne (String.toList_eq_nil_iff.1 hnil)

theorem HoldsText.isSet {text : String} (h : env.HoldsText name text) : env name ≠ none := by
  obtain ⟨_, value, hvalue, _⟩ := h
  rw [hvalue]
  exact Option.some_ne_none value

end Environment

/-! ## Layers -/

/-- A value that the upper layer holds, or else the value below it. -/
inductive Layer {α : Type} (holds : α → Prop) (below : α) : α → Prop
  | upper {a : α} (h : holds a) : Layer holds below a
  | lower (h : ∀ a, ¬ holds a) : Layer holds below below

/-- What a file has as the value of a setting: what the field is read as, or the default if
there is no such field. `node` is how the file writes a value. -/
inductive Filed {α : Type} (fields : Toml.Fields) (key : String) (node : α → Toml.Node)
    (default : α) : α → Prop
  | written {a : α} (h : Entries.lookup key fields = some (node a)) :
      Filed fields key node default a
  | missing (h : Entries.lookup key fields = none) : Filed fields key node default default

/-- What comes from a layer is held by it, or it holds nothing. -/
theorem Layer.cases {α : Type} {holds : α → Prop} {below a : α} (h : Layer holds below a) :
    holds a ∨ (∀ b, ¬ holds b) ∧ a = below := by
  cases h with
  | upper h => exact .inl h
  | lower h => exact .inr ⟨h, rfl⟩

/-- An optional value over another is a layer. -/
theorem layer_iff {α : Type} {holds : α → Prop} {found : Option α} {below a : α}
    (hfound : ∀ b, found = some b ↔ holds b) : Layer holds below a ↔ a = found.getD below := by
  constructor
  · rintro (h | h)
    · rw [(hfound a).2 h, Option.getD_some]
    · rw [Option.eq_none_iff_forall_ne_some.2 fun b hb => h b ((hfound b).1 hb), Option.getD_none]
  · rintro rfl
    cases hvalue : found with
    | none => exact .lower fun b hb => by simp [(hfound b).2 hb] at hvalue
    | some b => exact .upper ((hfound b).1 hvalue)

namespace Settings

/-- A field is read as what the file has. -/
theorem field?_eq_some_iff {α : Type} {fields : Toml.Fields} {key : String}
    {read : Toml.Node → Option α} {node : α → Toml.Node} {default a : α}
    (hread : ∀ n b, read n = some b ↔ n = node b) :
    field? fields key read default = some a ↔ Filed fields key node default a := by
  unfold field?
  split
  · rename_i hmissing
    constructor
    · intro h
      cases h
      exact .missing hmissing
    · rintro (h | h)
      · rw [hmissing] at h
        cases h
      · rfl
  · rename_i n hn
    rw [hread]
    constructor
    · rintro rfl
      exact .written hn
    · rintro (h | h)
      · exact Option.some.inj (hn.symm.trans h)
      · rw [hn] at h
        cases h

/-! ## Numbers of a fixed width -/

theorem natNode?_eq_some_iff {bound n : Nat} {node : Toml.Node} :
    natNode? bound node = some n ↔ node = .integer n ∧ n < bound := by
  unfold natNode?
  split
  · rename_i value
    constructor
    · intro h
      split at h
      · rename_i hrange
        cases h
        exact ⟨congrArg _ (Int.toNat_of_nonneg hrange.1).symm, by omega⟩
      · cases h
    · rintro ⟨hvalue, hbound⟩
      cases hvalue
      rw [if_pos ⟨by omega, by omega⟩, Int.toNat_natCast]
  · rename_i hother
    exact iff_of_false (by simp) fun h => hother _ h.1

/-- A reading of numbers below `2 ^ 32` read as words. -/
theorem map_ofNat32_eq_some_iff {found : Option Nat} {holds : Nat → Prop}
    (hfound : ∀ n, found = some n ↔ holds n ∧ n < UInt32.size) (a : UInt32) :
    found.map UInt32.ofNat = some a ↔ holds a.toNat := by
  rw [Option.map_eq_some_iff]
  constructor
  · rintro ⟨n, hn, rfl⟩
    obtain ⟨hholds, hbound⟩ := (hfound n).1 hn
    rwa [UInt32.toNat_ofNat_of_lt' hbound]
  · intro h
    exact ⟨a.toNat, (hfound _).2 ⟨h, a.toNat_lt_size⟩, UInt32.ofNat_toNat⟩

/-- A reading of numbers below `2 ^ 64` read as words. -/
theorem map_ofNat64_eq_some_iff {found : Option Nat} {holds : Nat → Prop}
    (hfound : ∀ n, found = some n ↔ holds n ∧ n < UInt64.size) (a : UInt64) :
    found.map UInt64.ofNat = some a ↔ holds a.toNat := by
  rw [Option.map_eq_some_iff]
  constructor
  · rintro ⟨n, hn, rfl⟩
    obtain ⟨hholds, hbound⟩ := (hfound n).1 hn
    rwa [UInt64.toNat_ofNat_of_lt' hbound]
  · intro h
    exact ⟨a.toNat, (hfound _).2 ⟨h, a.toNat_lt_size⟩, UInt64.ofNat_toNat⟩

theorem wordNode32?_eq_some_iff (node : Toml.Node) (a : UInt32) :
    wordNode32? node = some a ↔ node = .integer a.toNat :=
  map_ofNat32_eq_some_iff (fun _ => natNode?_eq_some_iff) a

theorem wordNode64?_eq_some_iff (node : Toml.Node) (a : UInt64) :
    wordNode64? node = some a ↔ node = .integer a.toNat :=
  map_ofNat64_eq_some_iff (fun _ => natNode?_eq_some_iff) a

theorem textNode?_eq_some_iff (node : Toml.Node) (a : String) :
    textNode? node = some a ↔ node = .string a := by
  cases node <;> simp [textNode?]

/-! ## All settings -/

/-- Every setting is what a document has under its key, or the default: three retries, pauses
of ten milliseconds, the category `"embedded"`, room for 256 events, and a timeout of five
seconds. -/
structure WrittenIn (fields : Toml.Fields) (s : Settings) : Prop where
  retries : Filed fields retriesKey (fun n : UInt32 => .integer n.toNat) 3 s.retries
  backoff : Filed fields backoffKey (fun n : UInt64 => .integer n.toNat) 10 s.backoff
  folderCategory : Filed fields folderCategoryKey .string "embedded" s.folderCategory
  eventCapacity : Filed fields eventCapacityKey (fun n : UInt64 => .integer n.toNat) 256
    s.eventCapacity
  busyTimeout : Filed fields busyTimeoutKey (fun n : UInt64 => .integer n.toNat) 5000 s.busyTimeout

/-- `s` is `base` with what the environment holds over it. -/
structure Overrides (env : Environment) (base s : Settings) : Prop where
  retries : Layer (fun n => env.HoldsNat Environment.retriesName n.toNat) base.retries s.retries
  backoff : Layer (fun n => env.HoldsNat Environment.backoffName n.toNat) base.backoff s.backoff
  folderCategory : Layer (env.HoldsText Environment.folderCategoryName) base.folderCategory
    s.folderCategory
  eventCapacity : s.eventCapacity = base.eventCapacity
  busyTimeout : s.busyTimeout = base.busyTimeout

theorem ofFields?_eq_some_iff {fields : Toml.Fields} {s : Settings} :
    ofFields? fields = some s ↔ WrittenIn fields s := by
  constructor
  · intro h
    obtain ⟨_, hretries, h⟩ := Option.bind_eq_some_iff.1 h
    obtain ⟨_, hbackoff, h⟩ := Option.bind_eq_some_iff.1 h
    obtain ⟨_, hcategory, h⟩ := Option.bind_eq_some_iff.1 h
    obtain ⟨_, hcapacity, h⟩ := Option.bind_eq_some_iff.1 h
    obtain ⟨_, htimeout, h⟩ := Option.bind_eq_some_iff.1 h
    cases h
    exact ⟨(field?_eq_some_iff wordNode32?_eq_some_iff).1 hretries,
      (field?_eq_some_iff wordNode64?_eq_some_iff).1 hbackoff,
      (field?_eq_some_iff textNode?_eq_some_iff).1 hcategory,
      (field?_eq_some_iff wordNode64?_eq_some_iff).1 hcapacity,
      (field?_eq_some_iff wordNode64?_eq_some_iff).1 htimeout⟩
  · intro h
    have hretries := (field?_eq_some_iff wordNode32?_eq_some_iff).2 h.retries
    have hbackoff := (field?_eq_some_iff wordNode64?_eq_some_iff).2 h.backoff
    have hcategory := (field?_eq_some_iff textNode?_eq_some_iff).2 h.folderCategory
    have hcapacity := (field?_eq_some_iff wordNode64?_eq_some_iff).2 h.eventCapacity
    have htimeout := (field?_eq_some_iff wordNode64?_eq_some_iff).2 h.busyTimeout
    exact Option.bind_eq_some_iff.2 ⟨_, hretries, Option.bind_eq_some_iff.2 ⟨_, hbackoff,
      Option.bind_eq_some_iff.2 ⟨_, hcategory, Option.bind_eq_some_iff.2 ⟨_, hcapacity,
        Option.bind_eq_some_iff.2 ⟨_, htimeout, rfl⟩⟩⟩⟩⟩

/-- The settings that a text is read as are those written in it. -/
theorem parse_eq_ok_iff {text : String} {s : Settings} :
    parse text = .ok s ↔ ∃ fields, Toml.read? text = some fields ∧ WrittenIn fields s := by
  simp only [← ofFields?_eq_some_iff]
  unfold parse
  constructor
  · intro h
    split at h
    · cases h
    · rename_i fields hfields
      split at h
      · cases h
      · rename_i t ht
        cases h
        exact ⟨fields, hfields, ht⟩
  · rintro ⟨fields, hfields, hs⟩
    rw [hfields]
    dsimp only
    rw [hs]
    rfl

/-- Overriding puts the environment over the settings. -/
theorem overrides_iff {env : Environment} {base s : Settings} :
    Overrides env base s ↔ s = base.overridden env := by
  have hretries (below a : UInt32) :
      Layer (fun n : UInt32 => env.HoldsNat Environment.retriesName n.toNat) below a ↔
        a = ((env.nat? Environment.retriesName UInt32.size).map UInt32.ofNat).getD below :=
    layer_iff (map_ofNat32_eq_some_iff fun _ => Environment.nat?_eq_some_iff)
  have hbackoff (below a : UInt64) :
      Layer (fun n : UInt64 => env.HoldsNat Environment.backoffName n.toNat) below a ↔
        a = ((env.nat? Environment.backoffName UInt64.size).map UInt64.ofNat).getD below :=
    layer_iff (map_ofNat64_eq_some_iff fun _ => Environment.nat?_eq_some_iff)
  have hcategory (below a : String) :
      Layer (env.HoldsText Environment.folderCategoryName) below a ↔
        a = (env.text? Environment.folderCategoryName).getD below :=
    layer_iff fun _ => Environment.text?_eq_some_iff
  constructor
  · rintro ⟨hr, hb, hf, he, ht⟩
    rw [hretries] at hr
    rw [hbackoff] at hb
    rw [hcategory] at hf
    unfold overridden
    rw [← hr, ← hb, ← hf, ← he, ← ht]
  · rintro rfl
    exact ⟨(hretries _ _).2 rfl, (hbackoff _ _).2 rfl, (hcategory _ _).2 rfl, rfl, rfl⟩

end Settings

end Editorial
