import Editorial.Json.Columns
import Editorial.Json.Shape
import Editorial.Settings.Basic

/-!
# Settings as JSON

A setting that is missing takes its default, whether a field of an object or
the last items of an array are missing.
-/

namespace Editorial

namespace Settings

/-- The shape of settings. -/
def shape : Json.Shape := .ofColumns keys

/-- The settings as an object. -/
def toJson (s : Settings) : Json :=
  .object
    [(retriesKey, .ofNat s.retries.toNat),
     (backoffKey, .ofNat s.backoff.toNat),
     (folderCategoryKey, .string s.folderCategory),
     (eventCapacityKey, .ofNat s.eventCapacity.toNat),
     (busyTimeoutKey, .ofNat s.busyTimeout.toNat)]

/-- A number of 32 bits. -/
def word32? (j : Json) : Option UInt32 := (Json.natBelow? UInt32.size j).map UInt32.ofNat

/-- A number of 64 bits. -/
def word64? (j : Json) : Option UInt64 := (Json.natBelow? UInt64.size j).map UInt64.ofNat

/-- The settings a value stands for. -/
def ofJson? (j : Json) : Option Settings := do
  let [retries, backoff, category, capacity, timeout] ← Json.leadingColumns? keys j | none
  let base : Settings := {}
  return {
    retries := ← Json.defaulted? word32? base.retries retries
    backoff := ← Json.defaulted? word64? base.backoff backoff
    folderCategory := ← Json.defaulted? Json.string? base.folderCategory category
    eventCapacity := ← Json.defaulted? word64? base.eventCapacity capacity
    busyTimeout := ← Json.defaulted? word64? base.busyTimeout timeout }

end Settings

end Editorial
