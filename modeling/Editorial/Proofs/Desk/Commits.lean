import Editorial.Proofs.Desk.Job
import Editorial.Proofs.Pipeline.Careful

/-!
# What a desk commits

A desk checks the record in hand before it commits and stages the rest
unchecked. Whatever its table, every change it asks to commit leaves a record
with a property, as long as it loads only such records, if the checks make sure
of the property and the tasks keep it. The same walk over all calls tells what kind
of reply each of them is answered with.

## Main results

* `meets_process` — a desk commits only records with the property.
* `form_of_leads` — what kind of reply a call is answered with.
-/

namespace Editorial

/-! ## Disciplined flows -/

/-- Whatever a step commits leaves records with the property. -/
def Query.Commits (P : Record → Prop) : Query → Prop
  | .commit changes => ∀ change ∈ changes, change.Leaves P
  | _ => True

theorem Query.commits_of_isReading {P : Record → Prop} (query : Query) (hq : query.IsReading) :
    query.Commits P := by
  cases query with
  | commit changes => exact False.elim hq
  | now | fresh kind | load id | find location | folder category container
  | pause milliseconds | log notice => trivial

namespace Flow

variable {α β : Type} {P : Record → Prop}

/-- The flow commits only records with the property as long as it loads only
such records, and where it ends well its result is as `post` says. -/
def Keeps (P : Record → Prop) (post : α → Prop) (f : Flow α) : Prop :=
  f.run.Meets (Query.Commits P) (Taken.Loads P) fun r? => ∀ a, r? = some (.ok a) → post a

theorem keeps_pure {post : α → Prop} {a : α} (ha : post a) : (pure a : Flow α).Keeps P post := by
  intro b hb
  cases hb
  exact ha

theorem keeps_throw {post : α → Prop} (failure : Failure) :
    (throw failure : Flow α).Keeps P post := by
  intro b hb
  cases hb

theorem Keeps.bind {post : α → Prop} {post' : β → Prop} {f : Flow α} {g : α → Flow β}
    (hf : f.Keeps P post) (hg : ∀ a, post a → (g a).Keeps P post') : (f >>= g).Keeps P post' := by
  unfold Keeps
  rw [run_bind, Process.meets_bind]
  refine Process.Meets.mono hf fun r? hr => ?_
  rcases r? with _ | failure | a
  · intro b hb
    cases hb
  · intro b hb
    cases hb
  · exact hg a (hr a rfl)

theorem Keeps.map {post : α → Prop} {f : Flow α} (hf : f.Keeps P post) (g : α → β) :
    (g <$> f).Keeps P fun _ => True := by
  rw [map_eq_pure_bind]
  exact hf.bind fun _ _ => keeps_pure trivial

theorem Keeps.mono {post post' : α → Prop} {f : Flow α} (hf : f.Keeps P post)
    (hpost : ∀ a, post a → post' a) : f.Keeps P post' :=
  Process.Meets.mono hf fun _ hr a ha => hpost a (hr a ha)

/-- An effectless step may be put before a flow. -/
theorem keeps_lift (query : Query) (hq : query.Commits P) :
    (liftM (Process.step query) : Flow query.Answer).Keeps P fun _ => True :=
  ⟨hq, fun _ _ _ _ => trivial⟩

theorem keeps_now : (liftM Process.now : Flow Instant).Keeps P fun _ => True :=
  keeps_lift .now trivial

theorem keeps_load (id : String) : (Flow.load id).Keeps P fun _ => True :=
  ⟨trivial, fun _ _ _ _ => trivial⟩

theorem keeps_commit {changes : List Change} (hc : ∀ change ∈ changes, change.Leaves P) :
    (commit changes).Keeps P fun _ => True :=
  ⟨hc, fun _ _ _ _ => trivial⟩

theorem keeps_liftExcept {x : Except Failure α} {post : α → Prop}
    (hx : ∀ a, x = .ok a → post a) : (liftM x : Flow α).Keeps P post := by
  cases x with
  | error failure => exact keeps_throw failure
  | ok a => exact keeps_pure (hx a rfl)

end Flow

/-! ## Forms of calls -/

/-- What the caller is told besides that the call was carried out: nothing, a document or
the id of a request. -/
inductive Form where
  | change
  | fetch
  | file
deriving DecidableEq

/-- The form of a call, if it is one of an operation. -/
def Call.form? : Call → Option Form
  | .obtain | .commit | .dispose | .update _ | .version | .restoreVersion _
  | .restoreVersionTo _ _ | .retrieveVersion _ => some .fetch
  | .requestPublication _ | .requestDepublication _ | .requestDeletion => some .file
  | .listVersions | .hints => none
  | _ => some .change

/-- The form of the calls that are answered so. -/
def Reply.form? : Reply → Option Form
  | .done => some .change
  | .document _ => some .fetch
  | .request _ => some .file
  | .versions _ | .hints _ => none

/-! ## Attempts -/

namespace Desk

variable {P : Record → Prop}

theorem keeps_load (id user : String) : (load id user).Keeps P fun _ => True := by
  refine (Flow.keeps_load id).bind fun found _ => ?_
  cases found with
  | none => exact Flow.keeps_throw _
  | some stored => exact Flow.keeps_pure trivial

/-- What a pipeline stages has the property. -/
theorem keeps_perform (hP : Record.Stageable P) (desk : Desk) (op : Operation)
    (arguments : Arguments) (h : Handle) :
    (desk.perform op arguments h).Keeps P fun w => w.transaction.Stages P := by
  have hmeets := Table.meets_fire hP desk.table ⟨arguments, desk.settings.folderCategory⟩ op h
  unfold Flow.Keeps
  rw [run_perform, Process.meets_bind]
  refine (hmeets.mono_asks Query.commits_of_isReading).mono fun r? hr => ?_
  rcases r? with _ | ⟨failure | _, w⟩
  · intro w hw
    cases hw
  · intro w' hw
    cases hw
  · intro w' hw
    cases hw
    exact hr

/-- So do all changes of an attempt, if the record does where it passes the
checks. -/
theorem leaves_changes {id : String} {w : Work}
    (hrecord : w.handle.record.check = .ok () → P w.handle.record)
    (hw : w.transaction.Stages P) {changes : List Change} (hc : Desk.changes id w = .ok changes) :
    ∀ change ∈ changes, change.Leaves P := by
  rcases changes_cases hc with ⟨-, rfl⟩ | ⟨-, hr, rfl⟩
  · intro change hm
    rcases List.mem_cons.1 hm with rfl | hm
    · trivial
    · exact hw change hm
  · intro change hm
    rcases List.mem_cons.1 hm with rfl | hm
    · exact hrecord hr
    · exact hw change hm

theorem keeps_read (hP : Record.Stageable P) (desk : Desk) (id user : String) (op : Operation)
    (arguments : Arguments) : (desk.read id user op arguments).Keeps P fun _ => True := by
  refine (keeps_load id user).bind fun h _ => ?_
  exact (keeps_perform hP desk op arguments h).mono fun _ _ => trivial

section

variable (hP : Record.Stageable P) (hcheck : ∀ r : Record, r.check = .ok () → P r) (desk : Desk)
  (id user : String) (op : Operation)

include hP hcheck

theorem keeps_attempt (arguments : Arguments) :
    (desk.attempt id user op arguments).Keeps P fun _ => True := by
  refine (keeps_load id user).bind fun h _ => ?_
  refine (keeps_perform hP desk op arguments h).bind fun w hw => ?_
  refine (Flow.keeps_liftExcept (x := changes id w) fun _ he => he).bind fun changes hchanges => ?_
  refine (Flow.keeps_commit (leaves_changes (hcheck _) hw hchanges)).bind fun verdict _ => ?_
  cases verdict with
  | conflict id => exact Flow.keeps_pure trivial
  | committed =>
      refine Flow.keeps_now.bind fun now _ => ?_
      exact (Flow.keeps_lift (.log _) trivial).bind fun _ _ => Flow.keeps_pure trivial

theorem keeps_runFrom (arguments : Arguments) (exhausted : Failure) (milliseconds left n : Nat) :
    Flow.Keeps P (fun _ => True) (Retry.runFrom (Process.pause milliseconds)
      (fun _ => desk.attempt id user op arguments) exhausted left n) := by
  induction left generalizing n with
  | zero =>
      rw [Retry.runFrom]
      refine (keeps_attempt hP hcheck desk id user op arguments).bind fun attempt _ => ?_
      cases attempt with
      | committed t => exact Flow.keeps_pure trivial
      | conflict => exact Flow.keeps_throw _
  | succ left ih =>
      rw [Retry.runFrom]
      refine (keeps_attempt hP hcheck desk id user op arguments).bind fun attempt _ => ?_
      cases attempt with
      | committed t => exact Flow.keeps_pure trivial
      | conflict =>
          exact (Flow.keeps_lift (.pause milliseconds) trivial).bind fun _ _ => ih (n + 1)

theorem keeps_execute (arguments : Arguments) :
    (desk.execute id user op arguments).Keeps P fun _ => True := by
  unfold execute
  cases op.isReadOnly with
  | true =>
      exact (keeps_read hP desk id user op arguments).bind fun _ _ => Flow.keeps_pure trivial
  | false => exact keeps_runFrom hP hcheck desk id user op arguments _ _ _ _

/-! ## Calls -/

theorem keeps_change (give : Arguments → Arguments) :
    (desk.change id user op give).Keeps P (·.form? = some .change) := by
  refine Flow.keeps_now.bind fun now _ => ?_
  exact (keeps_execute hP hcheck desk id user op _).bind fun _ _ => Flow.keeps_pure rfl

theorem keeps_fetch (give : Arguments → Arguments) :
    (desk.fetch id user op give).Keeps P (·.form? = some .fetch) := by
  refine Flow.keeps_now.bind fun now _ => ?_
  refine (keeps_execute hP hcheck desk id user op _).bind fun t _ => ?_
  cases t.result with
  | none => exact Flow.keeps_throw _
  | some d => exact Flow.keeps_pure rfl

theorem keeps_file (give : Arguments → Arguments) :
    (desk.file id user op give).Keeps P (·.form? = some .file) := by
  refine Flow.keeps_now.bind fun now _ => ?_
  refine (keeps_execute hP hcheck desk id user op _).bind fun t _ => ?_
  cases t.request with
  | none => exact Flow.keeps_throw _
  | some request => exact Flow.keeps_pure rfl

theorem keeps_changeAt (later : Operation) (date : Instant) :
    (desk.changeAt id user op later date).Keeps P (·.form? = some .change) := by
  refine Flow.keeps_now.bind fun begun _ => ?_
  by_cases h : date ≤ begun
  · rw [if_pos h]
    exact keeps_change hP hcheck desk id user op _
  · rw [if_neg h]
    exact (keeps_execute hP hcheck desk id user later _).bind fun _ _ => Flow.keeps_pure rfl

/-- Calls keep to it, too, and a reply has the form of its call. -/
theorem keeps_answer (call : Call) :
    (desk.answer id user call).Keeps P fun reply => reply.form? = call.form? := by
  have hblank : ∀ (what value : String) (rest : Flow Reply),
      rest.Keeps P (·.form? = some .change) →
      (do requireText what value; rest : Flow Reply).Keeps P (·.form? = some .change) := by
    intro what value rest hrest
    exact (Flow.keeps_liftExcept (x := requireText what value) fun _ _ => trivial).bind
      fun _ _ => hrest
  unfold answer
  cases call with
  | obtain | commit | dispose | update | version | restoreVersion | restoreVersionTo
  | retrieveVersion => exact keeps_fetch hP hcheck desk id user _ _
  | requestPublication | requestDepublication | requestDeletion =>
      exact keeps_file hP hcheck desk id user _ _
  | unlock | delete | acceptRequest | rejectRequest | cancelRequest | runScheduled =>
      exact keeps_change hP hcheck desk id user _ _
  | publish date? | depublish date? =>
      cases date? with
      | none => exact keeps_change hP hcheck desk id user _ _
      | some date => exact keeps_changeAt hP hcheck desk id user _ _ date
  | copy container name | move container name =>
      refine hblank "destination" container _ (hblank "name" name _ ?_)
      exact keeps_change hP hcheck desk id user _ _
  | rename name => exact hblank "name" name _ (keeps_change hP hcheck desk id user .rename _)
  | listVersions =>
      refine Flow.keeps_now.bind fun now _ => ?_
      exact (keeps_read hP desk id user .listVersions _).bind fun _ _ => Flow.keeps_pure rfl
  | hints => exact (keeps_load id user).bind fun _ _ => Flow.keeps_pure rfl

end

/-! ## Making documents -/

theorem keeps_create (hP : Record.Stageable P) (location : Option Location) (stage : Stage)
    (content : Payload) (user : String) :
    (Desk.create location stage content user).Keeps P fun _ => True := by
  unfold Flow.Keeps
  rcases run_create_cases location stage content user with ⟨fault, hrun⟩ | ⟨-, refused, hrun⟩
  · rw [hrun]
    exact fun _ _ => trivial
  · rw [hrun, run_createAt]
    refine ⟨trivial, fun id _ => ⟨trivial, fun v _ => ⟨trivial, fun now _ => ⟨?_, ?_⟩⟩⟩⟩
    · intro change hm
      rw [List.mem_singleton.1 hm]
      exact hP.single _ _ _
    · intro answer _
      rcases answer with failure | _ | id' <;> exact fun _ _ => trivial

/-- A desk commits only records with a property that the checks make sure of and
the tasks keep, as long as it loads only such records. -/
theorem meets_process (hP : Record.Stageable P) (hcheck : ∀ r : Record, r.check = .ok () → P r)
    (desk : Desk) (job : Job) :
    (desk.process job).Meets (Query.Commits P) (Taken.Loads P) fun _ => True := by
  cases job with
  | call id user call =>
      have hkeeps := (keeps_answer hP hcheck desk id user call).map Product.reply
      exact Process.Meets.mono hkeeps fun _ _ => trivial
  | create location stage content user =>
      have hkeeps := (keeps_create hP location stage content user).map Product.created
      exact Process.Meets.mono hkeeps fun _ _ => trivial

/-! ## Replies -/

/-- What kind of reply a call is answered with. -/
theorem form_of_leads {desk : Desk} {id user : String} {call : Call} {reply : Reply}
    {path : List Taken}
    (hl : (desk.process (.call id user call)).Leads path (some (.ok (.reply reply)))) :
    reply.form? = call.form? :=
  (keeps_answer Record.stageable_true (fun _ _ => trivial) desk id user call).post_of_leads
    (leads_process_reply.1 hl) (fun step _ => step.loads_true) reply rfl

end Desk

end Editorial
