import Editorial.Proofs.Desk.Attempt

/-!
# How a call ends

Whatever its steps are answered, a call ends in one of two ways. Either none of
its steps committed or logged anything, or the last three steps are a commit that
went through, a look at the clock and the event, and no step before them did
anything. A call that may change something has succeeded exactly in the second
case: after the commit nothing is left that could fail, as the operation has then
handed back what the call answers with.

## Main results

* `leads_attempt_cases`, `leads_execute_ends` — how attempts and operations end.
* `mutates_answer` — every call that does not only read is one operation.
* `Mutates.leads_cases` — how such a call ends.
-/

namespace Editorial

/-! ## Steps that change nothing -/

/-- The step leaves the store and the log as they are. -/
def Taken.IsIdle : Taken → Prop
  | ⟨.commit _, answer⟩ => answer ≠ .ok .committed
  | ⟨.log _, _⟩ => False
  | _ => True

theorem Taken.isIdle_of_isReading {t : Taken} (h : t.query.IsReading) : t.IsIdle := by
  rcases t with ⟨query, answer⟩
  cases query with
  | now | fresh _ | load _ | find _ | folder _ _ | pause _ => trivial
  | commit _ | log _ => exact False.elim h

theorem Taken.forall_isIdle_append {path path' : List Taken} :
    (∀ t ∈ path ++ path', t.IsIdle) ↔ (∀ t ∈ path, t.IsIdle) ∧ ∀ t ∈ path', t.IsIdle :=
  List.forall_mem_append

/-! ## What operations hand back -/

/-- Whether an operation hands a document back. -/
def Operation.handsBack : Operation → Bool
  | .obtain | .commit | .dispose | .update | .version | .restoreVersion | .restoreVersionTo
  | .retrieveVersion => true
  | _ => false

theorem Effect.exists_result {ctx : Context} {h : Handle} {op : Operation} {path : List Taken}
    {r : Record} {t : Transaction} (he : Effect ctx h op path r t) (hop : op.handsBack = true) :
    ∃ d, t.result = some d := by
  cases he with
  | file hkind => cases op <;> cases hkind <;> cases hop
  | claim | draft | draftPublished | promote | fold | dispose | update | version | restore
  | restoreOwn | restoreOther | retrieveVersion => exact ⟨_, rfl⟩
  | unlock | publish | withdraw | demote | delete | copy | move | rename | schedule | accept
  | reject | cancel | runScheduled | listVersions => cases hop

/-- What is carried out for a request hands no document back. -/
theorem Operation.handsBack_of_resolving {kind : RequestKind} {op : Operation}
    (hop : Operation.resolving? kind = some op) : op.handsBack = false := by
  cases kind <;> cases hop <;> rfl

theorem Effect.result_eq_none {ctx : Context} {h : Handle} {op : Operation} {path : List Taken}
    {r : Record} {t : Transaction} (he : Effect ctx h op path r t) (hop : op.handsBack = false) :
    t.result = none := by
  induction he with
  | claim | draft | draftPublished | promote | fold | dispose | update | version | restore
  | restoreOwn | restoreOther | retrieveVersion => cases hop
  | file | unlock | publish | withdraw | demote | delete | copy | move | rename | schedule
  | reject | cancel | listVersions => rfl
  | accept hid hq hnow hresolving hallows hrest ih =>
      exact ih (Operation.handsBack_of_resolving hresolving)
  | runScheduled hq hdue hresolving hallows hrest ih =>
      exact ih (Operation.handsBack_of_resolving hresolving)

theorem Effect.exists_request {ctx : Context} {h : Handle} {op : Operation} {path : List Taken}
    {r : Record} {t : Transaction} (he : Effect ctx h op path r t)
    (hop : op.filed?.isSome = true) : ∃ id, t.request = some id := by
  cases he with
  | file hkind => exact ⟨_, rfl⟩
  | claim | draft | draftPublished | promote | fold | dispose | update | version | restore
  | restoreOwn | restoreOther | retrieveVersion | unlock | publish | withdraw | demote | delete
  | copy | move | rename | schedule | accept | reject | cancel | runScheduled | listVersions =>
      cases hop

namespace Desk

variable {desk : Desk} {id user : String} {op : Operation} {arguments : Arguments}

/-- What a call answers once its operation is carried out: what the operation hands
back, if the call is to hand it on. -/
inductive Concludes (id : String) (op : Operation) (t : Transaction) : Except Failure Reply → Prop
  | done (hback : op.handsBack = false) : Concludes id op t (.ok .done)
  | document {d : Document} (hd : t.result = some d) : Concludes id op t (.ok (.document d))
  | noDocument (hback : op.handsBack = true) (hd : t.result = none) :
      Concludes id op t (.error (.state (.noDocument op id)))
  | request {request : String} (hback : op.handsBack = false) (hq : t.request = some request) :
      Concludes id op t (.ok (.request request))
  | noRequest (hfiled : op.filed?.isSome = true) (hq : t.request = none) :
      Concludes id op t (.error (.state (.noRequestFiled op id)))

/-- Nothing that a call hands on is missing after an effect. -/
theorem Concludes.exists_reply {t : Transaction} {reply? : Except Failure Reply}
    (h : Concludes id op t reply?) {ctx : Context} {handle : Handle} {path : List Taken}
    {r : Record} (he : Effect ctx handle op path r t) : ∃ reply, reply? = .ok reply := by
  cases h with
  | done hback => exact ⟨_, rfl⟩
  | document hd => exact ⟨_, rfl⟩
  | request hback hq => exact ⟨_, rfl⟩
  | noDocument hback hd =>
      obtain ⟨d, hd'⟩ := he.exists_result hback
      rw [hd] at hd'
      cases hd'
  | noRequest hfiled hq =>
      obtain ⟨request, hq'⟩ := he.exists_request hfiled
      rw [hq] at hq'
      cases hq'

/-! ## Attempts -/

/-- The path ends with the commit of what the steps just before it prepared and
with the event; no other step did anything. -/
def Settles (desk : Desk) (id user : String) (op : Operation) (arguments : Arguments)
    (path : List Taken) (t : Transaction) : Prop :=
  ∃ idle last changes now, path = idle ++ (last ++ settling id user op changes t now) ∧
    (∀ step ∈ idle, step.IsIdle) ∧ desk.Prepares id user op arguments last changes t

theorem Settles.after {idle path : List Taken} {t : Transaction}
    (h : desk.Settles id user op arguments path t) (hidle : ∀ step ∈ idle, step.IsIdle) :
    desk.Settles id user op arguments (idle ++ path) t := by
  obtain ⟨idle', last, changes, now, rfl, hidle', hp⟩ := h
  refine ⟨idle ++ idle', last, changes, now, ?_, Taken.forall_isIdle_append.2 ⟨hidle, hidle'⟩, hp⟩
  rw [List.append_assoc]

/-- What is settled is what some effect left. -/
theorem Settles.exists_effect {path : List Taken} {t : Transaction}
    (h : desk.Settles id user op arguments path t) :
    ∃ ctx h path r, Effect ctx h op path r t := by
  obtain ⟨idle, last, changes, now, -, -, hp⟩ := h
  cases hp with
  | loaded hallows heffect hchanges => exact ⟨_, _, _, _, heffect⟩

theorem isIdle_of_leads_prepare {path : List Taken}
    {result : Option (Except Failure (List Change × Transaction))}
    (hl : (desk.prepare id user op arguments).run.Leads path result) :
    ∀ step ∈ path, step.IsIdle := fun step hm =>
  Taken.isIdle_of_isReading ((meets_prepare desk id user op arguments).asks_of_mem hl
    (fun step _ => step.loads_true) step hm)

/-- How an attempt ends: it breaks off or fails before its commit, or the commit
fails, meets a conflict or goes through. -/
inductive AttemptEnds (desk : Desk) (id user : String) (op : Operation) (arguments : Arguments) :
    List Taken → Option (Except Failure (Attempt Transaction)) → Prop
  | broken {path : List Taken} (hl : (desk.prepare id user op arguments).run.Leads path none) :
      AttemptEnds desk id user op arguments path none
  | stopped {path : List Taken} {failure : Failure}
      (hl : (desk.prepare id user op arguments).run.Leads path (some (.error failure))) :
      AttemptEnds desk id user op arguments path (some (.error failure))
  | failed {path : List Taken} {changes : List Change} {t : Transaction} {failure : Failure}
      (hp : desk.Prepares id user op arguments path changes t) :
      AttemptEnds desk id user op arguments (path ++ [⟨.commit changes, .error failure⟩])
        (some (.error failure))
  | lost {path : List Taken} {changes : List Change} {t : Transaction} {other : String}
      (hp : desk.Prepares id user op arguments path changes t) :
      AttemptEnds desk id user op arguments (path ++ [.commit changes (.conflict other)])
        (some (.ok .conflict))
  | settled {path : List Taken} {changes : List Change} {t : Transaction} {now : Instant}
      (hp : desk.Prepares id user op arguments path changes t) :
      AttemptEnds desk id user op arguments (path ++ settling id user op changes t now)
        (some (.ok (.committed t)))

theorem attemptEnds_of_leads (htable : desk.table = .standard) {path : List Taken}
    {result : Option (Except Failure (Attempt Transaction))}
    (hl : (desk.attempt id user op arguments).run.Leads path result) :
    desk.AttemptEnds id user op arguments path result := by
  rw [attempt_eq, Flow.run_bind, Process.leads_bind] at hl
  rcases hl with ⟨first, second, prepared?, rfl, hprepare, hsettle⟩ | ⟨rfl, hprepare⟩
  · rcases prepared? with failure | ⟨changes, t⟩
    · obtain ⟨rfl, rfl⟩ := (Process.leads_done _ _ _).1 hsettle
      rw [List.append_nil]
      exact .stopped hprepare
    · have hp := (leads_prepare_iff htable).1 hprepare
      change Process.Leads (settle id user op (changes, t)).run second _ at hsettle
      rw [run_settle] at hsettle
      obtain ⟨answer, third, rfl, hanswer⟩ := (Process.leads_ask _ _ _ _).1 hsettle
      rcases answer with failure | _ | other
      · obtain ⟨rfl, rfl⟩ := (Process.leads_done _ _ _).1 hanswer
        exact .failed hp
      · obtain ⟨now, fourth, rfl, hnow⟩ := (Process.leads_ask _ _ _ _).1 hanswer
        obtain ⟨logged, fifth, rfl, hlogged⟩ := (Process.leads_ask _ _ _ _).1 hnow
        obtain ⟨rfl, rfl⟩ := (Process.leads_done _ _ _).1 hlogged
        exact .settled hp
      · obtain ⟨rfl, rfl⟩ := (Process.leads_done _ _ _).1 hanswer
        exact .lost hp
  · exact .broken hprepare

theorem Prepares.isIdle (htable : desk.table = .standard) {path : List Taken}
    {changes : List Change} {t : Transaction}
    (hp : desk.Prepares id user op arguments path changes t) : ∀ step ∈ path, step.IsIdle :=
  isIdle_of_leads_prepare ((leads_prepare_iff htable).2 hp)

/-- An attempt has changed nothing, or it is settled and has committed. -/
theorem leads_attempt_cases (htable : desk.table = .standard) {path : List Taken}
    {result : Option (Except Failure (Attempt Transaction))}
    (hl : (desk.attempt id user op arguments).run.Leads path result) :
    ((∀ step ∈ path, step.IsIdle) ∧ ∀ t, result ≠ some (.ok (.committed t))) ∨
      ∃ t, result = some (.ok (.committed t)) ∧ desk.Settles id user op arguments path t := by
  cases attemptEnds_of_leads htable hl with
  | broken hprepare => exact Or.inl ⟨isIdle_of_leads_prepare hprepare, fun _ => nofun⟩
  | stopped hprepare => exact Or.inl ⟨isIdle_of_leads_prepare hprepare, fun _ => nofun⟩
  | failed hp | lost hp =>
      refine Or.inl ⟨Taken.forall_isIdle_append.2 ⟨hp.isIdle htable, fun step hm => ?_⟩,
        fun _ => nofun⟩
      rw [List.mem_singleton.1 hm]
      exact nofun
  | settled hp => exact Or.inr ⟨_, rfl, [], _, _, _, rfl, List.forall_mem_nil _, hp⟩

/-! ## Operations -/

/-- An operation has changed nothing, or it is settled and has succeeded. -/
inductive Ends (desk : Desk) (id user : String) (op : Operation) (arguments : Arguments) :
    List Taken → Option (Except Failure Transaction) → Prop
  | idle {path : List Taken} {result : Option (Except Failure Transaction)}
      (hidle : ∀ step ∈ path, step.IsIdle) (hresult : ∀ t, result ≠ some (.ok t)) :
      Ends desk id user op arguments path result
  | settled {path : List Taken} {t : Transaction}
      (hsettles : desk.Settles id user op arguments path t) :
      Ends desk id user op arguments path (some (.ok t))

theorem Ends.after {idle path : List Taken} {result : Option (Except Failure Transaction)}
    (h : desk.Ends id user op arguments path result) (hidle : ∀ step ∈ idle, step.IsIdle) :
    desk.Ends id user op arguments (idle ++ path) result := by
  cases h with
  | idle hidle' hresult => exact .idle (Taken.forall_isIdle_append.2 ⟨hidle, hidle'⟩) hresult
  | settled hsettles => exact .settled (hsettles.after hidle)

/-- What ends with its first attempt unless that meets a conflict, ends as what it
does after a conflict. -/
theorem ends_of_attempt (htable : desk.table = .standard)
    {goOn : Process (Except Failure Transaction)}
    (hgoOn : ∀ {path result}, goOn.Leads path result →
      desk.Ends id user op arguments path result)
    {path : List Taken} {result : Option (Except Failure Transaction)}
    (hl : ((desk.attempt id user op arguments).run.bind fun
      | .ok (.committed t) => .done (.ok t)
      | .ok .conflict => goOn
      | .error failure => .done (.error failure)).Leads path result) :
    desk.Ends id user op arguments path result := by
  rw [Process.leads_bind] at hl
  rcases hl with ⟨first, second, r, rfl, hattempt, hend⟩ | ⟨rfl, hattempt⟩
  · rcases leads_attempt_cases htable hattempt with ⟨hidle, hr⟩ | ⟨t, hr, hsettles⟩
    · rcases r with failure | t | _
      · obtain ⟨rfl, rfl⟩ := (Process.leads_done _ _ _).1 hend
        rw [List.append_nil]
        exact .idle hidle fun _ => nofun
      · exact absurd rfl (hr t)
      · exact (hgoOn hend).after hidle
    · cases hr
      obtain ⟨rfl, rfl⟩ := (Process.leads_done _ _ _).1 hend
      rw [List.append_nil]
      exact .settled hsettles
  · rcases leads_attempt_cases htable hattempt with ⟨hidle, -⟩ | ⟨t, hr, -⟩
    · exact .idle hidle fun _ => nofun
    · cases hr

/-- Of attempts in turn only the last can have committed. -/
theorem leads_runFrom_ends (htable : desk.table = .standard) {exhausted : Failure}
    {milliseconds left n : Nat} {path : List Taken}
    {result : Option (Except Failure Transaction)}
    (hl : Process.Leads (ExceptT.run (Retry.runFrom (Process.pause milliseconds)
      (fun _ => desk.attempt id user op arguments) exhausted left n)) path result) :
    desk.Ends id user op arguments path result := by
  induction left generalizing n path result with
  | zero =>
      rw [run_runFrom_zero] at hl
      refine ends_of_attempt htable (fun {path result} hend => ?_) hl
      obtain ⟨rfl, rfl⟩ := (Process.leads_done _ _ _).1 hend
      exact .idle (List.forall_mem_nil _) fun _ => nofun
  | succ left ih =>
      rw [run_runFrom_succ] at hl
      refine ends_of_attempt htable (fun {path result} hend => ?_) hl
      obtain ⟨u, path', rfl, hrest⟩ := (Process.leads_ask _ _ _ _).1 hend
      have hpause : ∀ step ∈ [(⟨.pause milliseconds, u⟩ : Taken)], step.IsIdle := fun step hm => by
        rw [List.mem_singleton.1 hm]
        trivial
      exact (ih hrest).after hpause

/-- How an operation that may change something ends. -/
theorem leads_execute_ends (htable : desk.table = .standard) (hop : op.isReadOnly = false)
    {path : List Taken} {result : Option (Except Failure Transaction)}
    (hl : (desk.execute id user op arguments).run.Leads path result) :
    desk.Ends id user op arguments path result := by
  unfold execute at hl
  rw [hop, if_neg Bool.false_ne_true] at hl
  exact leads_runFrom_ends htable hl

end Desk

/-! ## Calls -/

namespace Call

/-- Whether a call only reads. -/
def isReadOnly : Call → Bool
  | .retrieveVersion _ | .listVersions | .hints => true
  | _ => false

/-- Whether none of the texts that have to say something is blank. -/
def isUsable : Call → Bool
  | .copy container name | .move container name =>
      !Text.allBlank container && !Text.allBlank name
  | .rename name => !Text.allBlank name
  | _ => true

/-- The operation that a call turns to, if it turns to one, and what the call gives
to it. A call with a date is judged at the time `begun`; `now` is the time at which
the call turns to the operation. -/
def turn? (begun now : Instant) : Call → Option (Operation × Arguments)
  | .obtain => some (.obtain, { now := now })
  | .commit => some (.commit, { now := now })
  | .dispose => some (.dispose, { now := now })
  | .update content => some (.update, { now := now, content := some content })
  | .unlock => some (.unlock, { now := now })
  | .publish none => some (.publish, { now := now })
  | .publish (some date) =>
      if date ≤ begun then some (.publish, { now := now })
      else some (.schedulePublish, { date := some date, now := begun })
  | .depublish none => some (.depublish, { now := now })
  | .depublish (some date) =>
      if date ≤ begun then some (.depublish, { now := now })
      else some (.scheduleDepublish, { date := some date, now := begun })
  | .delete => some (.delete, { now := now })
  | .copy container name =>
      some (.copy, { now := now, destination := some container, newName := some name })
  | .move container name =>
      some (.move, { now := now, destination := some container, newName := some name })
  | .rename name => some (.rename, { now := now, newName := some name })
  | .requestPublication date => some (.requestPublication, { now := now, date := date })
  | .requestDepublication date => some (.requestDepublication, { now := now, date := date })
  | .requestDeletion => some (.requestDeletion, { now := now })
  | .acceptRequest request => some (.acceptRequest, { now := now, request := some request })
  | .rejectRequest request reason =>
      some (.rejectRequest, { now := now, request := some request, reason := reason })
  | .cancelRequest request => some (.cancelRequest, { now := now, request := some request })
  | .runScheduled due => some (.runScheduled, { now := due })
  | .version => some (.version, { now := now })
  | .restoreVersion timestamp =>
      some (.restoreVersion, { now := now, timestamp := some timestamp })
  | .restoreVersionTo timestamp target =>
      some (.restoreVersionTo,
        { now := now, timestamp := some timestamp, target := some target })
  | .retrieveVersion timestamp =>
      some (.retrieveVersion, { now := now, timestamp := some timestamp })
  | .listVersions => some (.listVersions, { now := now })
  | .hints => none

/-- A call turns to this operation with these arguments, at some time. -/
structure Asks (call : Call) (op : Operation) (arguments : Arguments) : Prop where
  usable : call.isUsable = true
  turns : ∃ begun now, call.turn? begun now = some (op, arguments)

section

variable {begun now : Instant} {date? : Option Instant} {op : Operation} {arguments : Arguments}

/-- A call to publish is put off or not, and gives at most a date. -/
theorem of_turn?_publish (h : (publish date?).turn? begun now = some (op, arguments)) :
    (op = .publish ∨ op = .schedulePublish) ∧
      ∃ given now, arguments = { date := given, now := now } := by
  cases date? with
  | none =>
      cases h
      exact ⟨Or.inl rfl, none, now, rfl⟩
  | some date =>
      simp only [turn?] at h
      split at h <;> cases h
      · exact ⟨Or.inl rfl, none, now, rfl⟩
      · exact ⟨Or.inr rfl, some date, begun, rfl⟩

/-- So is a call to take a document offline. -/
theorem of_turn?_depublish (h : (depublish date?).turn? begun now = some (op, arguments)) :
    (op = .depublish ∨ op = .scheduleDepublish) ∧
      ∃ given now, arguments = { date := given, now := now } := by
  cases date? with
  | none =>
      cases h
      exact ⟨Or.inl rfl, none, now, rfl⟩
  | some date =>
      simp only [turn?] at h
      split at h <;> cases h
      · exact ⟨Or.inl rfl, none, now, rfl⟩
      · exact ⟨Or.inr rfl, some date, begun, rfl⟩

/-- The call that turns to an operation with these arguments, if only one does. -/
def asking? (op : Operation) (arguments : Arguments) : Option Call :=
  match op with
  | .unlock => some .unlock
  | .copy => do return .copy (← arguments.destination) (← arguments.newName)
  | .acceptRequest => arguments.request.map .acceptRequest
  | .rejectRequest => arguments.request.map fun n => .rejectRequest n arguments.reason
  | .cancelRequest => arguments.request.map .cancelRequest
  | .runScheduled => some (.runScheduled arguments.now)
  | .version => some .version
  | _ => none

theorem Asks.eq_of_asking? {call call' : Call} (h : call.Asks op arguments)
    (hcall : asking? op arguments = some call') : call = call' := by
  obtain ⟨-, begun, now, hturn⟩ := h
  cases call with
  | publish date? =>
      obtain ⟨rfl | rfl, -⟩ := of_turn?_publish hturn <;> cases hcall
  | depublish date? =>
      obtain ⟨rfl | rfl, -⟩ := of_turn?_depublish hturn <;> cases hcall
  | hints => cases hturn
  | _ =>
      cases hturn
      cases hcall <;> rfl

/-- Only a call to write a version into some document gives that document. -/
theorem Asks.eq_restoreVersionTo {call : Call} {target : Reference} (h : call.Asks op arguments)
    (htarget : arguments.target = some target) :
    ∃ timestamp, call = .restoreVersionTo timestamp target := by
  obtain ⟨-, begun, now, hturn⟩ := h
  cases call with
  | restoreVersionTo timestamp target' =>
      cases hturn
      cases htarget
      exact ⟨timestamp, rfl⟩
  | publish date? =>
      obtain ⟨-, given, now', rfl⟩ := of_turn?_publish hturn
      cases htarget
  | depublish date? =>
      obtain ⟨-, given, now', rfl⟩ := of_turn?_depublish hturn
      cases htarget
  | hints => cases hturn
  | _ =>
      cases hturn
      cases htarget

/-- Only a call to publish comes to that. -/
theorem Asks.eq_publish {call : Call} (h : call.Asks .publish arguments) :
    ∃ date?, call = .publish date? := by
  obtain ⟨-, begun, now, hturn⟩ := h
  cases call with
  | publish date? => exact ⟨date?, rfl⟩
  | depublish date? => obtain ⟨hop | hop, -⟩ := of_turn?_depublish hturn <;> cases hop
  | hints => cases hturn
  | _ => cases hturn

/-- Only a call to take a document offline comes to that. -/
theorem Asks.eq_depublish {call : Call} (h : call.Asks .depublish arguments) :
    ∃ date?, call = .depublish date? := by
  obtain ⟨-, begun, now, hturn⟩ := h
  cases call with
  | depublish date? => exact ⟨date?, rfl⟩
  | publish date? => obtain ⟨hop | hop, -⟩ := of_turn?_publish hturn <;> cases hop
  | hints => cases hturn
  | _ => cases hturn

end

end Call

namespace Desk

variable {desk : Desk} {id user : String} {op : Operation}

/-- What a flow does is only to read, whatever comes of it. -/
def OnlyReads {α : Type} (f : Flow α) : Prop :=
  f.run.Meets Query.IsReading (Taken.Loads fun _ => True) fun _ => True

theorem onlyReads_pure {α : Type} (a : α) : OnlyReads (pure a : Flow α) := trivial

theorem onlyReads_now {α : Type} {next : Instant → Flow α} (hnext : ∀ t, OnlyReads (next t)) :
    OnlyReads (liftM Process.now >>= next) := by
  unfold OnlyReads
  rw [Flow.run_bind]
  exact ⟨trivial, fun t _ => hnext t⟩

theorem OnlyReads.bind {α β : Type} {f : Flow α} {g : α → Flow β} (hf : OnlyReads f)
    (hg : ∀ a, OnlyReads (g a)) : OnlyReads (f >>= g) := by
  unfold OnlyReads
  rw [Flow.run_bind, Process.meets_bind]
  refine hf.mono fun a? _ => ?_
  rcases a? with _ | failure | a
  · trivial
  · trivial
  · exact hg a

theorem onlyReads_execute {arguments : Arguments} (hop : op.isReadOnly = true) :
    OnlyReads (desk.execute id user op arguments) := by
  unfold execute
  rw [hop, if_pos rfl]
  exact OnlyReads.bind (meets_read desk id user op arguments) fun _ => onlyReads_pure _

theorem onlyReads_fetch (hop : op.isReadOnly = true) (give : Arguments → Arguments) :
    OnlyReads (desk.fetch id user op give) := by
  refine onlyReads_now fun begun => (onlyReads_execute hop).bind fun t => ?_
  cases t.result <;> trivial

theorem onlyReads_answer {call : Call} (hcall : call.isReadOnly = true) :
    OnlyReads (desk.answer id user call) := by
  unfold answer
  cases call with
  | retrieveVersion timestamp => exact onlyReads_fetch rfl _
  | listVersions =>
      exact onlyReads_now fun begun =>
        OnlyReads.bind (meets_read desk id user .listVersions _) fun _ => onlyReads_pure _
  | hints =>
      refine ⟨trivial, fun found _ => ?_⟩
      rcases found with failure | _ | stored <;> trivial
  | _ => cases hcall

/-- A flow that may change something: it is refused before it begins if something
is `blank`, or it reads the clock and goes on, or it is one of the operations that
`asks` admits and answers with what that hands back. -/
inductive Mutates (desk : Desk) (id user : String) (blank : Prop)
    (asks : Operation → Arguments → Prop) : Flow Reply → Prop
  | refused {f : Flow Reply} {fault : ArgumentFault} (hblank : blank)
      (hrun : f.run = .done (.error (.argument fault))) : Mutates desk id user blank asks f
  | now {next : Instant → Flow Reply} (hnext : ∀ t, Mutates desk id user blank asks (next t)) :
      Mutates desk id user blank asks (liftM Process.now >>= next)
  | execute {op : Operation} {arguments : Arguments} {finish : Transaction → Flow Reply}
      (hop : op.isReadOnly = false) (hasks : asks op arguments)
      (hends : ∀ t, ∃ reply?, (finish t).run = .done reply? ∧ Concludes id op t reply?) :
      Mutates desk id user blank asks (desk.execute id user op arguments >>= finish)

section

variable {blank : Prop} {asks : Operation → Arguments → Prop}

theorem mutates_change (hop : op.isReadOnly = false) (hback : op.handsBack = false)
    {give : Arguments → Arguments} (hasks : ∀ t, asks op (give { now := t })) :
    Mutates desk id user blank asks (desk.change id user op give) :=
  .now fun t => .execute hop (hasks t) fun _ => ⟨_, rfl, .done hback⟩

theorem mutates_fetch (hop : op.isReadOnly = false) (hback : op.handsBack = true)
    {give : Arguments → Arguments} (hasks : ∀ t, asks op (give { now := t })) :
    Mutates desk id user blank asks (desk.fetch id user op give) := by
  refine .now fun t => .execute hop (hasks t) fun t => ?_
  cases hresult : t.result with
  | none => exact ⟨_, rfl, .noDocument hback hresult⟩
  | some d => exact ⟨_, rfl, .document hresult⟩

theorem mutates_file (hop : op.isReadOnly = false) (hback : op.handsBack = false)
    (hfiled : op.filed?.isSome = true)
    {give : Arguments → Arguments} (hasks : ∀ t, asks op (give { now := t })) :
    Mutates desk id user blank asks (desk.file id user op give) := by
  refine .now fun t => .execute hop (hasks t) fun t => ?_
  cases hrequest : t.request with
  | none => exact ⟨_, rfl, .noRequest hfiled hrequest⟩
  | some request => exact ⟨_, rfl, .request hback hrequest⟩

theorem mutates_changeAt {later : Operation} {date : Instant} (hop : op.isReadOnly = false)
    (hback : op.handsBack = false) (hlater : later.isReadOnly = false)
    (hlaterback : later.handsBack = false)
    (hasks : ∀ begun t, date ≤ begun → asks op { now := t })
    (hasksLater : ∀ begun, ¬ date ≤ begun → asks later { date := some date, now := begun }) :
    Mutates desk id user blank asks (desk.changeAt id user op later date) := by
  refine .now fun begun => ?_
  by_cases h : date ≤ begun
  · rw [if_pos h]
    exact mutates_change hop hback fun t => hasks begun t h
  · rw [if_neg h]
    exact .execute hlater (hasksLater begun h) fun _ => ⟨_, rfl, .done hlaterback⟩

/-- A blank argument ends a call before it begins. -/
theorem mutates_requireText (what : String) {value : String} {rest : Flow Reply}
    (hblank : Text.allBlank value = true → blank)
    (hrest : Text.allBlank value = false → Mutates desk id user blank asks rest) :
    Mutates desk id user blank asks (do requireText what value; rest) := by
  unfold requireText
  cases h : Text.allBlank value with
  | true => exact .refused (hblank h) rfl
  | false => exact hrest h

end

/-- Every call that does not only read is one operation. -/
theorem mutates_answer {call : Call} (hcall : call.isReadOnly = false) :
    Mutates desk id user (call.isUsable = false) call.Asks (desk.answer id user call) := by
  unfold answer
  cases call with
  | obtain => exact mutates_fetch rfl rfl fun t => ⟨rfl, t, t, rfl⟩
  | commit => exact mutates_fetch rfl rfl fun t => ⟨rfl, t, t, rfl⟩
  | dispose => exact mutates_fetch rfl rfl fun t => ⟨rfl, t, t, rfl⟩
  | update content => exact mutates_fetch rfl rfl fun t => ⟨rfl, t, t, rfl⟩
  | version => exact mutates_fetch rfl rfl fun t => ⟨rfl, t, t, rfl⟩
  | restoreVersion timestamp => exact mutates_fetch rfl rfl fun t => ⟨rfl, t, t, rfl⟩
  | restoreVersionTo timestamp target => exact mutates_fetch rfl rfl fun t => ⟨rfl, t, t, rfl⟩
  | requestPublication date? => exact mutates_file rfl rfl rfl fun t => ⟨rfl, t, t, rfl⟩
  | requestDepublication date? => exact mutates_file rfl rfl rfl fun t => ⟨rfl, t, t, rfl⟩
  | requestDeletion => exact mutates_file rfl rfl rfl fun t => ⟨rfl, t, t, rfl⟩
  | unlock => exact mutates_change rfl rfl fun t => ⟨rfl, t, t, rfl⟩
  | delete => exact mutates_change rfl rfl fun t => ⟨rfl, t, t, rfl⟩
  | acceptRequest request => exact mutates_change rfl rfl fun t => ⟨rfl, t, t, rfl⟩
  | rejectRequest request reason? => exact mutates_change rfl rfl fun t => ⟨rfl, t, t, rfl⟩
  | cancelRequest request => exact mutates_change rfl rfl fun t => ⟨rfl, t, t, rfl⟩
  | runScheduled now => exact mutates_change rfl rfl fun t => ⟨rfl, t, t, rfl⟩
  | publish date? =>
      cases date? with
      | none => exact mutates_change rfl rfl fun t => ⟨rfl, t, t, rfl⟩
      | some date =>
          exact mutates_changeAt rfl rfl rfl rfl (fun begun t h => ⟨rfl, begun, t, if_pos h⟩)
            fun begun h => ⟨rfl, begun, begun, if_neg h⟩
  | depublish date? =>
      cases date? with
      | none => exact mutates_change rfl rfl fun t => ⟨rfl, t, t, rfl⟩
      | some date =>
          exact mutates_changeAt rfl rfl rfl rfl (fun begun t h => ⟨rfl, begun, t, if_pos h⟩)
            fun begun h => ⟨rfl, begun, begun, if_neg h⟩
  | copy container name =>
      refine mutates_requireText _ (fun hc => by simp [Call.isUsable, hc]) fun hc =>
        mutates_requireText _ (fun hn => by simp [Call.isUsable, hn]) fun hn => ?_
      exact mutates_change rfl rfl fun t => ⟨by simp [Call.isUsable, hc, hn], t, t, rfl⟩
  | move container name =>
      refine mutates_requireText _ (fun hc => by simp [Call.isUsable, hc]) fun hc =>
        mutates_requireText _ (fun hn => by simp [Call.isUsable, hn]) fun hn => ?_
      exact mutates_change rfl rfl fun t => ⟨by simp [Call.isUsable, hc, hn], t, t, rfl⟩
  | rename name =>
      refine mutates_requireText _ (fun hn => by simp [Call.isUsable, hn]) fun hn => ?_
      exact mutates_change rfl rfl fun t => ⟨by simp [Call.isUsable, hn], t, t, rfl⟩
  | retrieveVersion timestamp => cases hcall
  | listVersions => cases hcall
  | hints => cases hcall

/-- A flow that may change something has changed nothing and failed, or it is
settled and has succeeded. -/
theorem Mutates.leads_cases (htable : desk.table = .standard)
    {blank : Prop} {asks : Operation → Arguments → Prop} {f : Flow Reply}
    (h : Mutates desk id user blank asks f) {path : List Taken}
    {result : Option (Except Failure Reply)} (hl : f.run.Leads path result) :
    ((∀ step ∈ path, step.IsIdle) ∧ ∀ reply, result ≠ some (.ok reply)) ∨
      ∃ reply op arguments t, result = some (.ok reply) ∧ asks op arguments ∧
        Concludes id op t (.ok reply) ∧ desk.Settles id user op arguments path t := by
  induction h generalizing path with
  | @refused f fault hblank hrun =>
      rw [hrun] at hl
      obtain ⟨rfl, rfl⟩ := (Process.leads_done _ _ _).1 hl
      exact Or.inl ⟨List.forall_mem_nil _, fun _ => nofun⟩
  | @now next hnext ih =>
      rw [Flow.run_bind] at hl
      obtain ⟨begun, path', rfl, hl'⟩ := (Process.leads_ask _ _ _ _).1 hl
      have hidle : ∀ step ∈ [Taken.now begun], step.IsIdle := fun step hm => by
        rw [List.mem_singleton.1 hm]
        trivial
      rcases ih begun hl' with
        ⟨hrest, hresult⟩ | ⟨reply, op, arguments, t, hresult, hasks, hconcludes, hsettles⟩
      · exact Or.inl ⟨List.forall_mem_append.2 ⟨hidle, hrest⟩, hresult⟩
      · exact Or.inr ⟨reply, op, arguments, t, hresult, hasks, hconcludes, hsettles.after hidle⟩
  | @execute op arguments finish hop hasks hends =>
      rw [Flow.run_bind, Process.leads_bind] at hl
      rcases hl with ⟨first, second, t?, rfl, hexecute, hend⟩ | ⟨rfl, hexecute⟩
      · cases leads_execute_ends htable hop hexecute with
        | idle hidle hresult =>
            rcases t? with failure | t
            · obtain ⟨rfl, rfl⟩ := (Process.leads_done _ _ _).1 hend
              rw [List.append_nil]
              exact Or.inl ⟨hidle, fun _ => nofun⟩
            · exact absurd rfl (hresult t)
        | @settled t hsettles =>
            obtain ⟨ctx, h, path, r, heffect⟩ := hsettles.exists_effect
            obtain ⟨reply?, hfinish, hconcludes⟩ := hends t
            obtain ⟨reply, rfl⟩ := hconcludes.exists_reply heffect
            change Process.Leads (finish t).run second result at hend
            rw [hfinish] at hend
            obtain ⟨rfl, rfl⟩ := (Process.leads_done _ _ _).1 hend
            rw [List.append_nil]
            exact Or.inr ⟨reply, op, arguments, t, rfl, hasks, hconcludes, hsettles⟩
      · cases leads_execute_ends htable hop hexecute with
        | idle hidle hresult => exact Or.inl ⟨hidle, fun _ => nofun⟩

end Desk

end Editorial
