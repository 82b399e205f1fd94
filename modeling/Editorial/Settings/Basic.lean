import Editorial.Event.Log
import Editorial.Retry
import Editorial.Text.Blank

/-!
# Settings

What can be set for a desk. Settings that come from outside are checked before
they are used: `check` answers the first thing that is wrong with them, and
`IsUsable` says that nothing is.

## Main results

* `check_eq_ok_iff` — settings pass the check exactly if they are usable.
-/

namespace Editorial

/-- What can be set for a desk. -/
structure Settings where
  /-- How many attempts may follow the first one when commits meet conflicts. -/
  retries : UInt32 := 3
  /-- The pause before another attempt, in milliseconds. -/
  backoff : UInt64 := 10
  /-- The category under which the containers for documents are registered. -/
  folderCategory : String := "embedded"
  /-- How many events a live receiver may fall behind. -/
  eventCapacity : UInt64 := UInt64.ofNat EventLog.defaultCapacity
  /-- How long to wait for a table that is in use, in milliseconds. -/
  busyTimeout : UInt64 := 5000
deriving DecidableEq

namespace Settings

/-! ## Names -/

/-- The name of `retries` in files. -/
def retriesKey : String := "max_commit_retries"

/-- The name of `backoff` in files. -/
def backoffKey : String := "retry_backoff_ms"

/-- The name of `folderCategory` in files. -/
def folderCategoryKey : String := "folder_workflow_category"

/-- The name of `eventCapacity` in files. -/
def eventCapacityKey : String := "event_channel_capacity"

/-- The name of `busyTimeout` in files. -/
def busyTimeoutKey : String := "sqlite_busy_timeout_ms"

/-- The names of all settings, in the order in which they are written. -/
def keys : List String :=
  [retriesKey, backoffKey, folderCategoryKey, eventCapacityKey, busyTimeoutKey]

/-! ## Checking -/

/-- How calls are retried under these settings. -/
def retry (s : Settings) : Retry := ⟨s.retries, s.backoff⟩

/-- What has to hold of settings before they are used. -/
structure IsUsable (s : Settings) : Prop where
  retries : 1 ≤ s.retries.toNat ∧ s.retries.toNat ≤ SettingsFault.mostRetries
  capacity : 0 < s.eventCapacity.toNat
  category : Text.allBlank s.folderCategory = false

/-- Fails at the first setting that cannot be used. -/
def check (s : Settings) : Except Failure Unit :=
  if s.retries.toNat = 0 || SettingsFault.mostRetries < s.retries.toNat then
    throw (.settings (.retries s.retries.toNat))
  else if s.eventCapacity.toNat = 0 then throw (.settings .noCapacity)
  else if Text.allBlank s.folderCategory then throw (.settings .blankCategory)
  else pure ()

/-- Settings pass the check exactly if they are usable. -/
theorem check_eq_ok_iff (s : Settings) : s.check = .ok () ↔ s.IsUsable := by
  unfold check
  constructor
  · intro h
    split at h
    · cases h
    · split at h
      · cases h
      · split at h
        · cases h
        · rename_i h₁ h₂ h₃
          simp only [Bool.or_eq_true, decide_eq_true_eq] at h₁
          exact ⟨by omega, by omega, by simpa using h₃⟩
  · intro h
    have := h.retries
    have := h.capacity
    rw [if_neg (by simp only [Bool.or_eq_true, decide_eq_true_eq]; omega),
      if_neg (by omega), if_neg (by simp [h.category])]
    rfl

theorem isUsable_default : IsUsable {} := ⟨by decide, by decide, by decide⟩

end Settings

end Editorial
