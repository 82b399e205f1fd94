import Editorial.Event.Format
import Editorial.Failure.Format
import Editorial.Pipeline.Table

/-!
# Transition tables as JSON

A rule is given as an object with its operation, the presence it asks of each
variant, and its tasks. A task is given by its name, in an object with the
stages, the kind or the operation it is about, or alone if there are none.
-/

namespace Editorial

open Json

namespace Presence

/-- The presence with this name. -/
def ofName? : String → Option Presence
  | "any" => some .any
  | "present" => some .present
  | "absent" => some .absent
  | _ => none

/-- The presence a value names. -/
def ofJson? (j : Json) : Option Presence := j.string?.bind ofName?

end Presence

namespace Pattern

/-- The pattern a value gives; a variant it does not name may be there or
not. -/
def ofJson? (j : Json) : Option Pattern := do
  return {
    draft := ← orElse? "draft" Presence.ofJson? .any j
    unpublished := ← orElse? "unpublished" Presence.ofJson? .any j
    published := ← orElse? "published" Presence.ofJson? .any j }

end Pattern

namespace Task

/-- The task with this name that is about nothing in particular. -/
def plain? (name : String) : Option Task :=
  [claimDraft, releaseDraft, deleteHandle, copyDocument, moveDocument, renameDocument,
   acceptRequest, rejectRequest, cancelRequest, runScheduled, takeVersion, restoreVersion,
   restoreVersionTo, retrieveVersion].find? fun task => task.name = name

/-- The task with this name that is about what an object says. -/
def about? (name : String) (j : Json) : Option Task := do
  let source := need? "from" Stage.ofJson? j
  let target := need? "to" Stage.ofJson? j
  let stage := need? "state" Stage.ofJson? j
  match name with
  | "create-variant" => return createVariant (← source) (← target)
  | "change-state" => return changeStage (← source) (← target)
  | "copy-content" => return copyContent (← source) (← target)
  | "remove-variant" => return removeVariant (← stage)
  | "write-content" => return writeContent (← stage)
  | "return-variant" => return returnVariant (← stage)
  | "create-request" => return createRequest (← need? "kind" RequestKind.ofJson? j)
  | "fail" => return fail (← Failure.ofJson? j)
  | "fire" => return fire (← need? "operation" Operation.ofJson? j)
  | _ => none

/-- The task a value gives. -/
def ofJson? (j : Json) : Option Task := do
  let name ← match j with
    | .string name => some name
    | _ => need? "task" string? j
  (plain? name).or (about? name j)

end Task

namespace Rule

/-- The rule an object gives. -/
def ofJson? (j : Json) : Option Rule := do
  return {
    operation := ← need? "operation" Operation.ofJson? j
    pattern := ← Pattern.ofJson? j
    tasks := ← orElse? "tasks" (list? Task.ofJson?) [] j }

end Rule

end Editorial
