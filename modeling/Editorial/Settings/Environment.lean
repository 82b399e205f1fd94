import Editorial.Settings.Basic
import Editorial.Text.Scan

/-!
# Settings from the environment

Three settings can be overridden by environment variables. A variable that
cannot be read is passed over, and so is a category that is blank.
-/

namespace Editorial

/-- The environment variables: for each name its value, if it is set. -/
abbrev Environment := String → Option String

namespace Environment

/-- The number below `bound` that a variable holds, white space around it
apart. -/
def nat? (env : Environment) (name : String) (bound : Nat) : Option Nat := do
  Text.readNat? bound (Text.trim (← env name))

/-- The text that a variable holds, without the white space around it, if it
is not blank. -/
def text? (env : Environment) (name : String) : Option String :=
  (env name).bind fun value =>
    if Text.allBlank value then none else some (Text.trim value)

/-- The variable for `Settings.retries`. -/
def retriesName : String := "DOCFLOW_MAX_COMMIT_RETRIES"

/-- The variable for `Settings.backoff`. -/
def backoffName : String := "DOCFLOW_RETRY_BACKOFF_MS"

/-- The variable for `Settings.folderCategory`. -/
def folderCategoryName : String := "DOCFLOW_FOLDER_WORKFLOW_CATEGORY"

end Environment

/-- The settings with what the environment overrides. -/
def Settings.overridden (s : Settings) (env : Environment) : Settings :=
  { s with
    retries := ((env.nat? Environment.retriesName UInt32.size).map UInt32.ofNat).getD s.retries
    backoff := ((env.nat? Environment.backoffName UInt64.size).map UInt64.ofNat).getD s.backoff
    folderCategory := (env.text? Environment.folderCategoryName).getD s.folderCategory }

end Editorial
