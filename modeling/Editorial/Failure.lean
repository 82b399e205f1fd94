import Editorial.Operation
import Editorial.Status
import Editorial.Time.Text

/-!
# Failures

Why something could not be done. Each constructor is a cause, with what its
message needs; the wording is in `Failure.message?` alone. Causes fall into the
kinds of `FailureKind`. A failure that a store or a folder service reports has
a kind and a text of its own, and only those wordings that are this library's
are given: a failure to read or write foreign data has none.

## Main results

* `isDomain_inTask` — a failure wrapped by the pipeline is not wrapped again.
-/

namespace Editorial

/-- The kinds of failure that callers tell apart. -/
inductive FailureKind where
  | notAllowed
  | invalidState
  | concurrentModification
  | transitionFailed
  | handleNotFound
  | versionNotFound
  | invalidArgument
  | invalidTransitionTable
  | duplicateRule
  | contentStore
  | config
  | serialization
  | io
  | database
deriving DecidableEq

/-- What is wrong with the state of a document or of the folder it goes to. -/
inductive StateFault where
  | variantMissing (handle : String) (stage : Stage)
  | variantExists (handle : String) (stage : Stage)
  | contentMissing (handle : String)
  | misfiled (variant : String) (place tag : Stage)
  | invalidStatus (handle : String) (status : Status)
  | manyPending (handle : String) (count : Nat)
  | historyUnordered (handle : String)
  | noRule (operation : Operation) (status : Status)
  | folderClosed (container : String)
  | folderUnknown (container category : String)
  | nameTaken (name container : String)
  | notFiled (handle : String)
  | requestMissing (handle request : String)
  | requestRejected
  | noScheduledRequest (handle : String)
  | notDue (kind : RequestKind) (request : String) (date : Option Instant)
  | locationTaken (location : Location)
  | handleExists (handle : String)
  | noDocument (operation : Operation) (handle : String)
  | noRequestFiled (operation : Operation) (handle : String)
deriving DecidableEq

namespace StateFault

/-- The fault in words. -/
def text : StateFault → String
  | variantMissing handle stage => s!"handle {handle} has no {stage.name} variant"
  | variantExists handle stage => s!"handle {handle} already has a {stage.name} variant"
  | contentMissing handle => s!"handle {handle} has no content"
  | misfiled variant place tag =>
      s!"variant {variant} is filed as {place.name} but tagged {tag.name}"
  | invalidStatus handle status => s!"handle {handle} would be left in state {status.text}"
  | manyPending handle count => s!"handle {handle} has {count} unresolved requests"
  | historyUnordered handle => s!"version history of handle {handle} is not ordered"
  | noRule operation status => s!"no transition for {operation.name} from {status.text}"
  | folderClosed container => s!"container {container} does not accept documents"
  | folderUnknown container category => s!"container {container} has no {category} folder workflow"
  | nameTaken name container => s!"a document named {name} already exists in {container}"
  | notFiled handle => s!"handle {handle} is not contained in a folder"
  | requestMissing handle request => s!"handle {handle} has no request {request}"
  | requestRejected => "a rejected request cannot be executed"
  | noScheduledRequest handle => s!"handle {handle} has no scheduled request"
  | notDue kind request date =>
      let due := match date with
        | none => ""
        | some date => date.inMessage
      s!"{kind.name} {request} is not due until {due}"
  | locationTaken location => s!"location {location.text} is taken"
  | handleExists handle => s!"handle {handle} already exists"
  | noDocument operation handle => s!"{operation.name} on {handle} returned no document"
  | noRequestFiled operation handle => s!"{operation.name} on {handle} filed no request"

end StateFault

/-- What is wrong with the arguments of a call. -/
inductive ArgumentFault where
  | missing (what : String)
  | blank (what : String)
  | unknownChannel (name : String)
deriving DecidableEq

namespace ArgumentFault

/-- The fault in words. -/
def text : ArgumentFault → String
  | missing what => s!"{what} is required"
  | blank what => s!"{what} must not be blank"
  | unknownChannel name => s!"unknown event channel {name}"

end ArgumentFault

/-- What is wrong with settings. -/
inductive SettingsFault where
  /-- The file cannot be read. -/
  | unreadable
  /-- The file is no settings file. -/
  | malformed
  /-- A number is too large for a settings file. -/
  | unrenderable
  | retries (given : Nat)
  | noCapacity
  | blankCategory
deriving DecidableEq

namespace SettingsFault

/-- The most retries a setting may allow. -/
def mostRetries : Nat := 100

/-- The fault in words, where the wording is this library's. -/
def text? : SettingsFault → Option String
  | unreadable | malformed | unrenderable => none
  | retries given =>
      some s!"max_commit_retries must be between 1 and {mostRetries}, got {given}"
  | noCapacity => some "event_channel_capacity must be greater than zero"
  | blankCategory => some "folder_workflow_category must not be blank"

end SettingsFault

/-- Why something could not be done. -/
inductive Failure where
  /-- The hints do not allow the operation. -/
  | denied (operation : Operation)
  /-- The state of a document or folder stands against it. -/
  | state (fault : StateFault)
  /-- Other writers came first in every attempt. -/
  | contention (handle : String) (attempts : Nat)
  /-- A task of an operation failed for reasons outside the workflow. -/
  | inTask (operation task : String) (source : Failure)
  /-- There is no such handle. -/
  | handleMissing (handle : String)
  /-- No version was taken at or before `t`. -/
  | versionMissing (handle : String) (t : Instant)
  /-- An argument is missing or unusable. -/
  | argument (fault : ArgumentFault)
  /-- A table has no rule for these operations. -/
  | uncovered (operations : List Operation)
  /-- A table has two rules for one operation and pattern. -/
  | duplicateRule (operation : Operation) (pattern : Pattern)
  /-- Settings are unusable. -/
  | settings (fault : SettingsFault)
  /-- A collaborator failed, with a text of its own. -/
  | reported (kind : FailureKind) (text : String)
deriving DecidableEq

namespace Failure

/-- The kind of a failure. -/
def kind : Failure → FailureKind
  | denied _ => .notAllowed
  | state _ => .invalidState
  | contention _ _ => .concurrentModification
  | inTask _ _ _ => .transitionFailed
  | handleMissing _ => .handleNotFound
  | versionMissing _ _ => .versionNotFound
  | argument _ => .invalidArgument
  | uncovered _ => .invalidTransitionTable
  | duplicateRule _ _ => .duplicateRule
  | settings _ => .config
  | reported kind _ => kind

/-- What messages of a kind begin with; nothing for kinds whose wording is not
this library's. -/
def heading? : FailureKind → Option String
  | .notAllowed => some "Operation not allowed: "
  | .invalidState => some "Invalid state: "
  | .concurrentModification => some "Concurrent modification of handle "
  | .transitionFailed => some "Transition "
  | .handleNotFound => some "Handle not found: "
  | .versionNotFound => some "Version not found: "
  | .invalidArgument => some "Invalid argument: "
  | .invalidTransitionTable => some "Invalid transition table: "
  | .duplicateRule => some "Duplicate transition rule: "
  | .contentStore => some "Content store error: "
  | .config => some "Configuration error: "
  | .serialization => none
  | .io => none
  | .database => none

/-- An operation and a pattern, as messages name a rule. -/
def ruleText (operation : Operation) (pattern : Pattern) : String :=
  s!"{operation.name} [{pattern.text}]"

/-- What a message says after its heading. -/
def detail? : Failure → Option String
  | denied operation => some operation.name
  | state fault => some fault.text
  | contention handle attempts => some s!"{handle} after {attempts} attempts"
  | inTask operation task source =>
      match source.detail?, heading? source.kind with
      | some detail, some heading => some s!"{operation} failed in task {task}: {heading ++ detail}"
      | _, _ => none
  | handleMissing handle => some handle
  | versionMissing handle t =>
      some s!"handle {handle} has no version at or before {t.inMessage}"
  | argument fault => some fault.text
  | uncovered operations =>
      some ("no rule for " ++ String.intercalate ", " (operations.map Operation.name))
  | duplicateRule operation pattern => some (ruleText operation pattern)
  | settings fault => fault.text?
  | reported _ text => some text

/-- The message of a failure, where the wording is this library's. -/
def message? (f : Failure) : Option String := do
  return (← heading? f.kind) ++ (← f.detail?)

/-- Whether the workflow itself defines the kind of failure. The others come
from outside and are wrapped where a task meets them. -/
def isDomain (f : Failure) : Bool :=
  match f.kind with
  | .notAllowed | .invalidState | .concurrentModification | .transitionFailed
  | .handleNotFound | .versionNotFound | .invalidArgument => true
  | _ => false

/-- Whether the same call may succeed when it is made again. -/
def isRetryable (f : Failure) : Bool := f.kind = .concurrentModification

/-- The failure behind a failure, if there is one of this library's. -/
def source? : Failure → Option Failure
  | inTask _ _ source => some source
  | _ => none

/-- Whether something else lies behind a failure: the failure of a task, or
one met in reading or writing data. -/
def hasSource (f : Failure) : Bool :=
  f.kind = .transitionFailed || f.kind = .serialization || f.kind = .io

@[simp] theorem isDomain_inTask (operation task : String) (source : Failure) :
    (inTask operation task source).isDomain = true := rfl

end Failure

end Editorial
