import Editorial.Settings.Environment
import Editorial.Toml.Reader
import Editorial.Toml.Writer

/-!
# Settings files

A settings file is a TOML document with a field for each setting. Fields that
are missing take their defaults and unknown fields are passed over. Settings
are loaded from a file, overridden by the environment, and then checked.
-/

namespace Editorial

namespace Settings

/-! ## Reading -/

/-- The setting called `name`, read with `read`, or its default if the file
does not have it. -/
def field? {α : Type} (fields : Toml.Fields) (name : String) (read : Toml.Node → Option α)
    (default : α) : Option α :=
  match Entries.lookup name fields with
  | none => some default
  | some node => read node

/-- A natural number below `bound`. -/
def natNode? (bound : Nat) : Toml.Node → Option Nat
  | .integer n => if 0 ≤ n ∧ n < bound then some n.toNat else none
  | _ => none

/-- A text. -/
def textNode? : Toml.Node → Option String
  | .string s => some s
  | _ => none

/-- A number of 32 bits. -/
def wordNode32? (node : Toml.Node) : Option UInt32 := (natNode? UInt32.size node).map UInt32.ofNat

/-- A number of 64 bits. -/
def wordNode64? (node : Toml.Node) : Option UInt64 := (natNode? UInt64.size node).map UInt64.ofNat

/-- The settings the fields of a document stand for. -/
def ofFields? (fields : Toml.Fields) : Option Settings := do
  let base : Settings := {}
  return {
    retries := ← field? fields retriesKey wordNode32? base.retries
    backoff := ← field? fields backoffKey wordNode64? base.backoff
    folderCategory := ← field? fields folderCategoryKey textNode? base.folderCategory
    eventCapacity := ← field? fields eventCapacityKey wordNode64? base.eventCapacity
    busyTimeout := ← field? fields busyTimeoutKey wordNode64? base.busyTimeout }

/-- The settings in the text of a file. -/
def parse (text : String) : Except Failure Settings :=
  match Toml.read? text with
  | none => throw (.settings .malformed)
  | some fields =>
      match ofFields? fields with
      | none => throw (.settings .malformed)
      | some s => pure s

/-! ## Writing -/

/-- The text of a file with these settings. Numbers that a file cannot hold
make it fail. -/
def render (s : Settings) : Except Failure String :=
  let text : Option String := do
    return Toml.line retriesKey (← Toml.integer? s.retries.toNat)
      ++ Toml.line backoffKey (← Toml.integer? s.backoff.toNat)
      ++ Toml.line folderCategoryKey (Toml.quote s.folderCategory)
      ++ Toml.line eventCapacityKey (← Toml.integer? s.eventCapacity.toNat)
      ++ Toml.line busyTimeoutKey (← Toml.integer? s.busyTimeout.toNat)
  match text with
  | none => throw (.settings .unrenderable)
  | some text => pure text

/-! ## Loading -/

/-- The settings of a file, overridden by the environment, if they are usable.
Nothing is given for a file that cannot be read. -/
def load (file : Option String) (env : Environment) : Except Failure Settings := do
  let some text := file | throw (.settings .unreadable)
  let s := (← parse text).overridden env
  s.check
  return s

/-- The settings of a file, or the default settings if they cannot be loaded,
overridden by the environment as long as that leaves them usable. -/
def loadOrDefault (file : Option String) (env : Environment) : Settings :=
  match load file env with
  | .ok s => s
  | .error _ =>
      let s := ({} : Settings).overridden env
      match s.check with
      | .ok _ => s
      | .error _ => {}

end Settings

end Editorial
