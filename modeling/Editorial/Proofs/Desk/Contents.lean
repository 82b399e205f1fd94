import Editorial.Proofs.Desk.Committing
import Editorial.Proofs.Pipeline.Contents
import Editorial.Proofs.Store.Nesting

/-!
# Contents that clients bring

The only contents that come into a store are those that clients bring along, for a new
document or for a draft. What is true of all of them, and of all that is in the store, is
true of all that is committed.

## Main results

* `Prepares.leaves_allContents` — what a call commits, if it is made of what was loaded.
* `commits_allContents` — what a job commits.
-/

namespace Editorial

/-- The content that comes with a call. -/
def Call.content? : Call → Option Payload
  | .update content => some content
  | _ => none

/-- The content that a client brings along with a job. -/
def Job.content? : Job → Option Payload
  | .create _ _ content _ => some content
  | .call _ _ asked => asked.content?

/-- Whether the backend can hand out the content that comes with a call. -/
def Call.isReadable (b : Backend) (call : Call) : Bool := call.content?.all b.canReadContent

theorem Call.isReadable_whole (call : Call) : call.isReadable .whole = true := by
  cases call <;> rfl

/-- The content that an operation is given is the one that comes with the call. -/
theorem Call.Asks.content?_eq {call : Call} {op : Operation} {arguments : Arguments}
    (h : call.Asks op arguments) {content : Payload} (hc : arguments.content = some content) :
    call.content? = some content := by
  obtain ⟨-, begun, now, hturn⟩ := h
  cases call with
  | update given =>
      cases hturn
      exact hc
  | publish date? =>
      obtain ⟨-, given, now', rfl⟩ := of_turn?_publish hturn
      cases hc
  | depublish date? =>
      obtain ⟨-, given, now', rfl⟩ := of_turn?_depublish hturn
      cases hc
  | hints => cases hturn
  | _ =>
      cases hturn
      cases hc

theorem Call.canReadContent_of_asks {b : Backend} {call : Call} {op : Operation}
    {arguments : Arguments} (hreadable : call.isReadable b = true) (h : call.Asks op arguments)
    {content : Payload} (hc : arguments.content = some content) :
    b.canReadContent content = true := by
  have hall : call.content?.all b.canReadContent = true := hreadable
  rwa [h.content?_eq hc] at hall

namespace Desk

variable {desk : Desk} {P : Payload → Prop}

/-- What is true of all contents that a call loads and of the one it is given is true of all
that it commits. -/
theorem Prepares.leaves_allContents {id user : String} {op : Operation} {arguments : Arguments}
    {path : List Taken} {changes : List Change} {t : Transaction}
    (hp : desk.Prepares id user op arguments path changes t)
    (hgiven : ∀ content, arguments.content = some content → P content)
    (hloads : ∀ step ∈ path, step.Loads (Record.AllContents P)) :
    ∀ change ∈ changes, change.Leaves (Record.AllContents P) := by
  cases hp with
  | @loaded stored path r _ _ hallows heffect hchanges =>
      have hloaded : stored.record.AllContents P :=
        hloads _ (List.mem_cons_self ..) stored rfl
      have hrest : ∀ step ∈ path, step.Loads (Record.AllContents P) :=
        fun step hm => hloads step (List.mem_cons_of_mem _ hm)
      exact leaves_changes (fun _ => heffect.allContents_record hloaded fun _ => hgiven)
        (heffect.allContents_staged hloaded hrest) hchanges

/-- So it is for every job. -/
theorem commits_allContents (htable : desk.table = .standard) {job : Job}
    (hjob : ∀ content, job.content? = some content → P content) :
    (desk.process job).Meets (Query.Commits (Record.AllContents P))
      (Taken.Loads (Record.AllContents P)) fun _ => True := by
  refine meets_of_leaves htable (fun hcall hasks hprepares => ?_) fun id v now hcreate _ => ?_
  · subst hcall
    exact hprepares.leaves_allContents fun content hc => hjob content (hasks.content?_eq hc)
  · subst hcreate
    exact .single _ _ (by simpa using hjob _ rfl)

end Desk

end Editorial
