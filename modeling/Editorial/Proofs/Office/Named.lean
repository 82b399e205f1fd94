import Editorial.Proofs.Desk.Committing
import Editorial.Proofs.Office.Sound
import Editorial.Proofs.Pipeline.Filing

/-!
# No document is filed under blanks

A call does not begin if it is given a blank container or name, and neither does the
making of a document. A renamed document stays in its container, and that was not
blank before. So no document is ever filed in a place with a blank container or name.

## Main results

* `named_run` — every place in the store is named, in every run of an office.
-/

namespace Editorial

/-- If the document is filed in a place, the place is named. -/
def Record.IsNamed (r : Record) : Prop := ∀ l, r.location = some l → l.IsNamed

/-- A place in which a call files a document is named. -/
theorem Call.Asks.isNamed {call : Call} {op : Operation} {arguments : Arguments}
    (h : call.Asks op arguments) {r : Record} (hr : r.IsNamed) {place : Location}
    (hplace : arguments.place? op r = some place) : place.IsNamed := by
  obtain ⟨husable, begun, now, hturn⟩ := h
  cases call with
  | copy container name | move container name =>
      cases hturn
      cases hplace
      obtain ⟨hcontainer, hname⟩ := Bool.and_eq_true_iff.1 husable
      exact ⟨by simpa using hcontainer, by simpa using hname⟩
  | rename name =>
      cases hturn
      cases hl : r.location with
      | none =>
          simp only [Arguments.place?, hl] at hplace
          cases hplace
      | some l =>
          simp only [Arguments.place?, hl] at hplace
          cases hplace
          exact ⟨(hr l hl).1, by simpa [isUsable] using husable⟩
  | publish date? =>
      obtain ⟨rfl | rfl, -⟩ := of_turn?_publish hturn <;> cases hplace
  | depublish date? =>
      obtain ⟨rfl | rfl, -⟩ := of_turn?_depublish hturn <;> cases hplace
  | hints => cases hturn
  | _ =>
      cases hturn
      cases hplace

namespace Desk

variable {desk : Desk} {id user : String}

/-- A call that loads only documents in named places commits only such. -/
theorem Prepares.leaves_isNamed {op : Operation} {arguments : Arguments} {path : List Taken}
    {changes : List Change} {t : Transaction}
    (hp : desk.Prepares id user op arguments path changes t)
    (hplaces : ∀ r place, r.IsNamed → arguments.place? op r = some place → place.IsNamed)
    (hloads : ∀ step ∈ path, step.Loads Record.IsNamed) :
    ∀ change ∈ changes, change.Leaves Record.IsNamed := by
  cases hp with
  | @loaded stored path r _ _ hallows heffect hchanges =>
      have hloaded : stored.record.IsNamed := hloads _ (List.mem_cons_self ..) stored rfl
      have hboth : r.IsNamed ∧ t.Stages Record.IsNamed := by
        have heffect := heffect.places
        unfold Record.IsNamed Transaction.Stages
        generalize r.location = location at heffect
        generalize t.staged = staged at heffect
        cases heffect with
        | stays => exact ⟨hloaded, List.forall_mem_nil _⟩
        | moves hplace hfind hfree =>
            refine ⟨fun l hl => ?_, List.forall_mem_nil _⟩
            cases hl
            exact hplaces _ _ hloaded hplace
        | copies hop hplace hfind hfree hfresh hlocation =>
            refine ⟨hloaded, fun change hm => ?_⟩
            rw [List.mem_singleton.1 hm]
            intro l hl
            cases hlocation.symm.trans hl
            exact hplaces _ _ hloaded hplace
        | @restores target other record hload hid hlocation =>
            refine ⟨hloaded, fun change hm => ?_⟩
            rw [List.mem_singleton.1 hm]
            intro l hl
            exact hloads _ (List.mem_cons_of_mem _ hload) other rfl l (hlocation.symm.trans hl)
      exact leaves_changes (fun _ => hboth.1) hboth.2 hchanges

/-- So does every job. -/
theorem commits_isNamed (htable : desk.table = .standard) (job : Job) :
    (desk.process job).Meets (Query.Commits Record.IsNamed) (Taken.Loads Record.IsNamed)
      fun _ => True := by
  refine meets_of_leaves htable (fun _ hasks hprepares => ?_) fun _ _ _ _ hnamed => hnamed
  exact hprepares.leaves_isNamed fun r place hr hplace => hasks.isNamed hr hplace

end Desk

/-- Every place in the store is named, in every run of an office that begins with an
empty store. -/
theorem Office.named_run {desk : Desk} (htable : desk.table = .standard) {s : System}
    (hs : s.store = .empty) (moves : List Move) :
    ∀ id stored, ((opening s).run desk moves).system.store.get? id = some stored →
      stored.record.IsNamed := by
  refine stored_run_of_meets (fun job _ => Desk.commits_isNamed htable job) (fun r hr => hr) ?_
  intro id stored hget
  rw [hs, Keyed.get?_empty] at hget
  cases hget

end Editorial
