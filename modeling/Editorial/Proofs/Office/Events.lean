import Editorial.Proofs.Desk.Logging
import Editorial.Proofs.Office.Serial

/-!
# One event for each commit

Between the commit of a call and its event any number of others may commit and log, so
at most moments the log is behind the store, and it need not keep the order of the
commits. It makes no mistake all the same. A client logs only right after a commit of
its own went through, and it takes no other step before it has. So the client that
logged an event is one that has committed a call, and one that has committed a call and
owes no event has logged it.

All this holds for any table and any store. With the standard table an operation hands
back whatever its call is to answer, so a call that has committed succeeds, and the
event can be told from the changes and the answer.

## Main results

* `Booked.step` — what is on the books stays right in every move.
* `events_match_commits` — where nobody owes an event, the events are those of the
  committed calls.
-/

namespace Editorial

/-! ## What an event tells of the changes -/

/-- What an operation makes besides are new records, and it names them; it removes no
other record. -/
theorem Effect.staged_eq {ctx : Context} {h : Handle} {op : Operation} {path : List Taken}
    {r : Record} {t : Transaction} (he : Effect ctx h op path r t) :
    t.created = (t.staged.filter fun change => change.expected? = none).map Change.id ∧
      ∀ id revision, .delete id revision ∉ t.staged := by
  have hnone : ∀ id revision, Change.delete id revision ∉ [] := fun _ _ => List.not_mem_nil
  induction he with
  | copy | restoreOther => exact ⟨rfl, fun id revision => by simp⟩
  | claim | draft | draftPublished | promote | fold | dispose | update | unlock | publish
  | withdraw | demote | delete | file | move | rename | schedule | reject | cancel | version
  | restore | restoreOwn | listVersions | retrieveVersion => exact ⟨rfl, hnone⟩
  | accept hid hq hnow hop hallows hrest ih => exact ih
  | runScheduled hq hdue hop hallows hrest ih => exact ih

namespace Desk

variable {desk : Desk} {id user : String} {op : Operation} {arguments : Arguments}
  {path : List Taken} {changes : List Change} {t : Transaction}

/-- What was noted of an operation agrees with the changes it prepared. -/
theorem Prepares.noted (hp : desk.Prepares id user op arguments path changes t) :
    t.created = (changes.filter fun change => change.expected? = none).map Change.id ∧
      (t.deletes = true ↔ ∃ revision, .delete id revision ∈ changes) := by
  cases hp with
  | @loaded stored path r _ _ hallows heffect hchanges =>
      obtain ⟨hcreated, hstaged⟩ := heffect.staged_eq
      rcases Desk.changes_cases hchanges with ⟨hdeletes, rfl⟩ | ⟨hdeletes, -, rfl⟩
      · refine ⟨?_, fun _ => ⟨_, List.mem_cons_self ..⟩, fun _ => hdeletes⟩
        rw [List.filter_cons_of_neg (by simp [Change.expected?])]
        exact hcreated
      · refine ⟨?_, fun h => ?_, ?_⟩
        · rw [List.filter_cons_of_neg (by simp [Change.expected?])]
          exact hcreated
        · rw [hdeletes] at h
          cases h
        · rintro ⟨revision, hm⟩
          rcases List.mem_cons.1 hm with he | hm
          · cases he
          · exact absurd hm (hstaged id revision)

end Desk

/-! ## Clients and their events -/

/-- Whether a job is a call. -/
def Job.isCall : Job → Bool
  | .call _ _ _ => true
  | .create _ _ _ _ => false

/-- Whether an event is owed after a step, if it is known whether one was owed before. -/
def Taken.owing (owed : Bool) : Taken → Bool
  | ⟨.commit _, .ok .committed⟩ => true
  | ⟨.log _, _⟩ => false
  | _ => owed

/-- The client is between the commit of a call and the event. -/
def Client.owes (c : Client) : Bool := c.job.isCall && c.journal.foldl Taken.owing false

/-- The client made a call that has committed, once, what its last attempt prepared, and
then it logged the event. Before that it has neither changed nor logged anything. -/
inductive Client.Reports (desk : Desk) : Client → Event → Prop
  | intro {id user : String} {call : Call} {op : Operation} {arguments : Arguments}
      {earlier last : List Taken} {changes : List Change} {t : Transaction} {now : Instant}
      {reply? : Except Failure Reply} {sequence : Nat}
      (hasks : call.Asks op arguments) (hop : op.isReadOnly = false)
      (hidle : ∀ step ∈ earlier ++ last, step.IsIdle)
      (hprepared : (desk.prepare id user op arguments).run.Leads last (some (.ok (changes, t))))
      (hconcludes : Desk.Concludes id op t reply?) :
      Reports desk ⟨.call id user call, earlier ++ last ++ Desk.settling id user op changes t now,
        .done (reply?.map .reply)⟩ ⟨Desk.notice id user op t now, sequence⟩

/-- The document that was answered. -/
def Reply.document? : Reply → Option Document
  | .document d => some d
  | _ => none

/-- The call succeeded, and the event tells which document it answered, which documents
it made and whether it removed the one it was about. -/
structure Client.Announces (c : Client) (event : Event) : Prop where
  answered : ∃ reply, c.process = .done (.ok (.reply reply)) ∧
    event.result = reply.document?.map Document.reference
  committed : ∃ changes, .commit changes .committed ∈ c.journal ∧
    event.created = (changes.filter fun change => change.expected? = none).map Change.id ∧
    (event.deleted = true ↔ ∃ revision, .delete event.handle revision ∈ changes)

theorem Client.Reports.announces {desk : Desk} (htable : desk.table = .standard) {c : Client}
    {event : Event} (h : c.Reports desk event) : c.Announces event := by
  cases h with
  | @intro id user call op arguments earlier last changes t now reply? sequence hasks hop hidle
      hprepared hconcludes =>
      have hp := (Desk.leads_prepare_iff htable).1 hprepared
      obtain ⟨hcreated, hdeletes⟩ := hp.noted
      refine ⟨?_, changes, List.mem_append_right _ (List.mem_cons_self ..), hcreated, hdeletes⟩
      cases hp with
      | loaded hallows heffect hchanges =>
          obtain ⟨reply, rfl⟩ := hconcludes.exists_reply heffect
          refine ⟨reply, rfl, ?_⟩
          show t.result.map Document.reference = _
          cases hconcludes with
          | document hd =>
              rw [hd]
              rfl
          | done hback | request hback hq =>
              rw [heffect.result_eq_none hback]
              rfl

namespace Client

variable {desk : Desk} {c : Client}

/-- Where a client stands with its commit. -/
theorem Traces.standing (h : c.Traces desk) :
    Process.Standing (desk.PreparedJob c.job) c.journal c.process :=
  Process.standing_of_reaches (Desk.logs_process desk c.job []) h

theorem not_mem_of_isIdle {path : List Taken} (hidle : ∀ step ∈ path, step.IsIdle) :
    (∀ changes, .commit changes .committed ∉ path) ∧
      ∀ notice, (⟨.log notice, ()⟩ : Taken) ∉ path :=
  ⟨fun _ hm => hidle _ hm rfl, fun _ hm => hidle _ hm⟩

/-- A client that commits has neither committed nor logged before. -/
theorem Traces.of_commit (h : c.Traces desk) {changes : List Change}
    {next : Except Failure Verdict → Process (Except Failure Product)}
    (hp : c.process = .ask (.commit changes) next) : ∀ step ∈ c.journal, step.IsIdle := by
  have hstanding := h.standing
  rw [hp] at hstanding
  generalize c.journal = journal at hstanding
  cases hstanding with
  | before hidle hlogs => exact hidle

/-- A client that logs has a call and has not logged before. -/
theorem Traces.of_log (h : c.Traces desk) {notice : Notice}
    {next : Unit → Process (Except Failure Product)} (hp : c.process = .ask (.log notice) next) :
    c.job.isCall = true ∧ ∀ notice, (⟨.log notice, ()⟩ : Taken) ∉ c.journal := by
  have hstanding := h.standing
  rw [hp] at hstanding
  generalize c.journal = journal at hstanding
  generalize c.job = job at hstanding
  cases hstanding with
  | before hidle hlogs => exact absurd rfl (hlogs.1 notice)
  | @timed path changes notice' a now hidle hmade =>
      refine ⟨?_, fun notice hm => ?_⟩
      · cases job with
        | call id user call => rfl
        | create location stage content user => cases hmade
      · rcases List.mem_append.1 hm with hm | hm
        · exact (not_mem_of_isIdle hidle).2 notice hm
        · simp at hm

/-- A client that has committed a call has logged its event, or it owes the event and has
not ended. -/
theorem Traces.logged_or_owes (h : c.Traces desk) (hcall : c.job.isCall = true)
    {changes : List Change} (hm : .commit changes .committed ∈ c.journal) :
    (∃ notice, (⟨.log notice, ()⟩ : Taken) ∈ c.journal) ∨
      c.owes = true ∧ ∃ query next, c.process = .ask query next := by
  have hstanding := h.standing
  rw [owes, hcall, Bool.true_and]
  generalize c.journal = journal at hstanding hm ⊢
  generalize c.process = process at hstanding ⊢
  generalize c.job = job at hstanding hcall
  cases hstanding with
  | before hidle hlogs => exact absurd hm ((not_mem_of_isIdle hidle).1 changes)
  | silent hidle hmade =>
      cases job with
      | call id user call =>
          obtain ⟨reply?, -, op, arguments, t, -, -, -, earlier, last, -, -, hnone⟩ := hmade
          cases hnone
      | create location stage content user => cases hcall
  | committed hidle hmade | timed hidle hmade =>
      rw [List.foldl_append]
      exact Or.inr ⟨rfl, _, _, rfl⟩
  | @logged path _ notice a now hidle hmade =>
      exact Or.inl ⟨notice now, List.mem_append_right _ (by simp)⟩

/-- A client that has committed a call and owes no event has logged it. -/
theorem Traces.exists_log (h : c.Traces desk) (hcall : c.job.isCall = true)
    (howes : c.owes = false) {changes : List Change}
    (hm : .commit changes .committed ∈ c.journal) :
    ∃ notice, (⟨.log notice, ()⟩ : Taken) ∈ c.journal := by
  refine (h.logged_or_owes hcall hm).resolve_right fun ⟨howes', _⟩ => ?_
  rw [howes] at howes'
  cases howes'

/-- So has one that has committed a call and ended. -/
theorem Traces.exists_log_of_ended (h : c.Traces desk) (hcall : c.job.isCall = true)
    {result : Option (Except Failure Product)} (hp : c.process = Process.ended result)
    {changes : List Change} (hm : .commit changes .committed ∈ c.journal) :
    ∃ notice, (⟨.log notice, ()⟩ : Taken) ∈ c.journal := by
  refine (h.logged_or_owes hcall hm).resolve_right ?_
  rintro ⟨-, query, next, hask⟩
  rw [hp] at hask
  cases result <;> cases hask

/-- What a client has logged it reports. -/
theorem Traces.reports (h : c.Traces desk) {event : Event}
    (hm : (⟨.log event.toNotice, ()⟩ : Taken) ∈ c.journal) :
    c.Reports desk event ∧ ∃ changes, .commit changes .committed ∈ c.journal := by
  have hstanding := h.standing
  rcases c with ⟨job, journal, process⟩
  rcases event with ⟨notice, sequence⟩
  change (⟨.log notice, ()⟩ : Taken) ∈ journal at hm
  change Process.Standing (desk.PreparedJob job) journal process at hstanding
  cases hstanding with
  | before hidle hlogs => exact absurd hm ((not_mem_of_isIdle hidle).2 notice)
  | silent hidle hmade | committed hidle hmade | timed hidle hmade =>
      rcases List.mem_append.1 hm with hm | hm
      · exact absurd hm ((not_mem_of_isIdle hidle).2 notice)
      · simp at hm
  | @logged path changes notice' product? now hidle hmade =>
      have hnotice : notice = notice' now := by
        rcases List.mem_append.1 hm with hm | hm
        · exact absurd hm ((not_mem_of_isIdle hidle).2 notice)
        · simpa using hm
      cases job with
      | create location stage content user => cases hmade
      | call id user call =>
          obtain ⟨reply?, rfl, op, arguments, t, hasks, hop, hconcludes, earlier, last, rfl,
            hprepared, hnoted⟩ := hmade
          cases hnoted
          subst hnotice
          exact ⟨.intro hasks hop hidle hprepared hconcludes, changes,
            List.mem_append_right _ (List.mem_cons_self ..)⟩

end Client

namespace Office

variable {desk : Desk} {o : Office} {i j : Nat} {c : Client} {query : Query}
  {next : query.Answer → Process (Except Failure Product)} {now : Instant} {name : String}
  {move : Move}

/-! ## Committed calls -/

/-- The number of the client whose call a move commits, if it makes a commit that
succeeds. -/
def caller? (o : Office) (move : Move) : Option Nat :=
  match move, o.committing? move with
  | .advance i _ _, some c => if c.job.isCall then some i else none
  | _, _ => none

/-- The numbers of the clients whose calls are committed in a run, in the order of the
commits. -/
def callers (desk : Desk) : Office → List Move → List Nat
  | _, [] => []
  | o, move :: moves => (o.caller? move).toList ++ callers desk (o.step desk move) moves

theorem callers_concat (desk : Desk) (o : Office) (moves : List Move) (move : Move) :
    o.callers desk (moves ++ [move]) =
      o.callers desk moves ++ ((o.run desk moves).caller? move).toList := by
  induction moves generalizing o with
  | nil => exact List.append_nil _
  | cons first moves ih =>
      show (o.caller? first).toList ++ (o.step desk first).callers desk (moves ++ [move]) = _
      rw [ih (o.step desk first), ← List.append_assoc]
      rfl

/-- The number of the client that logs an event in a move, if one does. -/
def logger? (o : Office) : Move → Option Nat
  | .enter _ => none
  | .advance i _ _ =>
      match o.clients[i]? with
      | none => none
      | some c =>
          match c.process with
          | .ask (.log _) _ => some i
          | _ => none

/-- The numbers of the clients that log in a run, in the order of their events. -/
def loggers (desk : Desk) : Office → List Move → List Nat
  | _, [] => []
  | o, move :: moves => (o.logger? move).toList ++ loggers desk (o.step desk move) moves

theorem loggers_append (desk : Desk) (o : Office) (moves moves' : List Move) :
    o.loggers desk (moves ++ moves') =
      o.loggers desk moves ++ (o.run desk moves).loggers desk moves' := by
  induction moves generalizing o with
  | nil => rfl
  | cons first moves ih =>
      show (o.logger? first).toList ++ (o.step desk first).loggers desk (moves ++ moves') = _
      rw [ih (o.step desk first), ← List.append_assoc]
      rfl

/-- Client number `i` took this step, and its job is a call. -/
def Called (o : Office) (i : Nat) (t : Taken) : Prop :=
  ∃ c, o.clients[i]? = some c ∧ c.job.isCall = true ∧ t ∈ c.journal

theorem called_enter (job : Job) {t : Taken} :
    (o.step desk (.enter job)).Called j t ↔ o.Called j t := by
  show (∃ c, (o.clients ++ [_])[j]? = some c ∧ _) ↔ _
  constructor
  · rintro ⟨c, hc, hcall, hm⟩
    by_cases hj : j < o.clients.length
    · rw [List.getElem?_append_left hj] at hc
      exact ⟨c, hc, hcall, hm⟩
    · rw [List.getElem?_append_right (Nat.le_of_not_lt hj)] at hc
      rw [List.mem_singleton.1 (List.mem_of_getElem? hc)] at hm
      cases hm
  · rintro ⟨c, hc, hcall, hm⟩
    rw [List.getElem?_append_left (List.getElem?_eq_some_iff.1 hc).1]
    exact ⟨c, hc, hcall, hm⟩

theorem called_take (hc : o.clients[i]? = some c) {t : Taken} :
    (o.take i c query next now name).Called j t ↔
      o.Called j t ∨ (j = i ∧ c.job.isCall = true ∧ t = ⟨query, (o.answer query now name).1⟩) := by
  have hlt : i < o.clients.length := (List.getElem?_eq_some_iff.1 hc).1
  show (∃ c', (o.clients.set i _)[j]? = some c' ∧ _) ↔ _
  by_cases hj : j = i
  · subst hj
    rw [List.getElem?_set_self hlt]
    constructor
    · rintro ⟨c', he, hcall, hm⟩
      cases he
      rcases List.mem_append.1 hm with hm | hm
      · exact Or.inl ⟨c, hc, hcall, hm⟩
      · exact Or.inr ⟨rfl, hcall, List.mem_singleton.1 hm⟩
    · rintro (⟨c', hc', hcall, hm⟩ | ⟨-, hcall, rfl⟩)
      · rw [hc] at hc'
        cases hc'
        exact ⟨_, rfl, hcall, List.mem_append_left _ hm⟩
      · exact ⟨_, rfl, hcall, List.mem_append_right _ (List.mem_singleton_self _)⟩
  · rw [List.getElem?_set_ne fun he => hj he.symm]
    exact ⟨Or.inl, fun h => h.elim id fun hi => absurd hi.1 hj⟩

/-- A move that commits a call is a step of the client. -/
theorem of_caller? (h : o.caller? move = some i) :
    ∃ c changes next now name, move = .advance i now name ∧ o.clients[i]? = some c ∧
      c.job.isCall = true ∧ c.process = .ask (.commit changes) next ∧
      (o.answer (.commit changes) now name).1 = .ok .committed ∧
      o.step desk move = o.take i c (.commit changes) next now name := by
  unfold caller? at h
  split at h
  · rename_i j now name c hcommits
    split at h
    · rename_i hcall
      cases h
      obtain ⟨i, changes, next, now', name', hmove, hc, hp, hverdict, hstep⟩ :=
        @take_of_committing? desk o c _ hcommits
      cases hmove
      exact ⟨c, changes, next, now, name, rfl, hc, hcall, hp, congrArg Except.ok hverdict, hstep⟩
    · cases h
  · cases h

/-- A commit of a call that goes through is a move that commits the call. -/
theorem caller?_of_commit {changes : List Change}
    {next : Except Failure Verdict → Process (Except Failure Product)}
    (hc : o.clients[i]? = some c) (hp : c.process = .ask (.commit changes) next)
    (hcall : c.job.isCall = true)
    (hverdict : (o.system.backend.commit o.system.store changes).1 = .committed) :
    o.caller? (.advance i now name) = some i := by
  have hcommits : o.committing? (.advance i now name) = some c := by
    simp only [committing?, hc, hp, hverdict, if_true]
  simp only [caller?, hcommits, hcall, if_true]

/-- A step that commits no call is not a commit of a call that went through. -/
theorem not_committed_of_caller? (hc : o.clients[i]? = some c) (hp : c.process = .ask query next)
    (hcall : c.job.isCall = true) (h : o.caller? (.advance i now name) = none)
    {changes : List Change} :
    (⟨query, (o.answer query now name).1⟩ : Taken) ≠ .commit changes .committed := by
  intro he
  cases query with
  | commit changes' =>
      injection he with hquery hanswer
      cases hquery
      have hcaller : o.caller? (.advance i now name) = some i :=
        caller?_of_commit hc hp hcall (Except.ok.inj hanswer)
      cases h.symm.trans hcaller
  | now | fresh kind | load id | find location | folder category container
  | pause milliseconds | log notice => cases he

/-- A move that commits a call logs nothing. -/
theorem logger?_of_caller? (h : o.caller? move = some i) : o.logger? move = none := by
  obtain ⟨c, changes, next, now, name, rfl, hc, -, hp, -⟩ := @of_caller? {} o i move h
  simp only [logger?, hc, hp]

/-- A move that logs an event is a step of the client. -/
theorem of_logger? (h : o.logger? move = some i) :
    ∃ c notice next now name, o.clients[i]? = some c ∧ c.process = .ask (.log notice) next ∧
      o.step desk move = o.take i c (.log notice) next now name := by
  cases move with
  | enter job => cases h
  | advance j now name =>
      simp only [logger?] at h
      split at h
      · cases h
      · rename_i c hc
        split at h
        · rename_i notice next hp
          cases h
          exact ⟨c, notice, next, now, name, hc, hp, by simp only [step, hc, hp]; rfl⟩
        · cases h

/-! ## Books -/

/-- The events are numbered from one on. -/
def Numbered (log : EventLog) : Prop :=
  log.events.map Event.sequence = List.range' 1 log.events.length

theorem Numbered.nextSequence {log : EventLog} (h : Numbered log) :
    log.nextSequence = log.events.length + 1 := by
  rcases List.eq_nil_or_concat log.events with hnil | ⟨earlier, last, hlast⟩
  · rw [EventLog.nextSequence, hnil]
    rfl
  · rw [List.concat_eq_append] at hlast
    rw [Numbered, hlast, List.map_append, List.length_append, List.range'_append.symm] at h
    have hsequence := (List.append_inj' h rfl).2
    simp only [List.map_cons, List.map_nil, List.length_singleton, List.range'_one,
      List.cons.injEq, and_true] at hsequence
    simp only [EventLog.nextSequence, hlast, List.getLast?_append, List.getLast?_singleton,
      Option.some_or, hsequence, List.length_append, List.length_singleton]
    omega

theorem Numbered.append {log : EventLog} (h : Numbered log) (notice : Notice) :
    Numbered (log.append notice).2 := by
  show (log.events ++ [_]).map Event.sequence = List.range' 1 (log.events ++ [_]).length
  rw [List.map_append, List.length_append, h, ← List.range'_append]
  show _ ++ [log.nextSequence] = _ ++ List.range' _ 1
  rw [h.nextSequence, List.range'_one, Nat.one_mul, Nat.add_comm]

/-- The books of an office: `callers` have committed a call and `authors` have logged an
event, each of them once, and the events are those of the authors. -/
structure Booked (desk : Desk) (o : Office) (callers authors : List Nat) : Prop where
  traces : ∀ c ∈ o.clients, Client.Traces desk c
  numbered : Numbered o.system.log
  once : callers.Nodup
  committed : ∀ i, i ∈ callers ↔ ∃ changes, o.Called i (.commit changes .committed)
  onceLogged : authors.Nodup
  logged : ∀ i, i ∈ authors ↔ ∃ notice, o.Called i ⟨.log notice, ()⟩
  told : List.Forall₂ (fun i event => o.Called i ⟨.log event.toNotice, ()⟩) authors
    o.system.log.events

namespace Booked

variable {callers authors : List Nat}

/-- A client that commits a call is put on the books. -/
theorem take_commit (h : o.Booked desk callers authors) (hc : o.clients[i]? = some c)
    (hcall : c.job.isCall = true) {changes : List Change}
    {next : Except Failure Verdict → Process (Except Failure Product)}
    (hp : c.process = .ask (.commit changes) next)
    (hverdict : (o.answer (.commit changes) now name).1 = .ok .committed)
    (htraces : ∀ c' ∈ (o.take i c (.commit changes) next now name).clients,
      Client.Traces desk c') :
    (o.take i c (.commit changes) next now name).Booked desk (callers ++ [i]) authors := by
  have hidle := (h.traces c (List.mem_of_getElem? hc)).of_commit hp
  have hnew : i ∉ callers := by
    intro hm
    obtain ⟨changes', c', hc', -, hm'⟩ := (h.committed i).1 hm
    rw [hc] at hc'
    cases hc'
    exact (Client.not_mem_of_isIdle hidle).1 changes' hm'
  have hlog : ∀ j notice, (o.take i c (.commit changes) next now name).Called j
      ⟨.log notice, ()⟩ ↔ o.Called j ⟨.log notice, ()⟩ := by
    intro j notice
    rw [called_take hc]
    exact or_iff_left fun ⟨_, _, he⟩ => nomatch congrArg Taken.query he
  refine ⟨htraces, h.numbered, ?_, fun j => ?_, h.onceLogged, fun j => ?_, ?_⟩
  · exact List.nodup_append.2 ⟨h.once, List.nodup_singleton i, fun j hj k hk he =>
      hnew (by rwa [he, List.mem_singleton.1 hk] at hj)⟩
  · simp only [List.mem_append, List.mem_singleton, h.committed, called_take hc, exists_or,
      hverdict]
    refine or_congr Iff.rfl ⟨fun he => ⟨changes, he, hcall, rfl⟩, fun ⟨_, he, _⟩ => he⟩
  · simp only [h.logged, hlog]
  · exact h.told.imp fun i event hcalled => (hlog i event.toNotice).2 hcalled

/-- So is one that logs an event. -/
theorem take_log (h : o.Booked desk callers authors) (hc : o.clients[i]? = some c)
    {notice : Notice} {next : Unit → Process (Except Failure Product)}
    (hp : c.process = .ask (.log notice) next)
    (htraces : ∀ c' ∈ (o.take i c (.log notice) next now name).clients, Client.Traces desk c') :
    (o.take i c (.log notice) next now name).Booked desk callers (authors ++ [i]) := by
  obtain ⟨hcall, hnone⟩ := (h.traces c (List.mem_of_getElem? hc)).of_log hp
  have hnew : i ∉ authors := by
    intro hm
    obtain ⟨notice', c', hc', -, hm'⟩ := (h.logged i).1 hm
    rw [hc] at hc'
    cases hc'
    exact hnone notice' hm'
  have hcommit : ∀ j changes, (o.take i c (.log notice) next now name).Called j
      (.commit changes .committed) ↔ o.Called j (.commit changes .committed) := by
    intro j changes
    rw [called_take hc]
    exact or_iff_left fun ⟨_, _, he⟩ => nomatch congrArg Taken.query he
  refine ⟨htraces, h.numbered.append notice, h.once, fun j => ?_, ?_, fun j => ?_, ?_⟩
  · simp only [h.committed, hcommit]
  · exact List.nodup_append.2 ⟨h.onceLogged, List.nodup_singleton i, fun j hj k hk he =>
      hnew (by rwa [he, List.mem_singleton.1 hk] at hj)⟩
  · simp only [List.mem_append, List.mem_singleton, h.logged, called_take hc, exists_or]
    refine or_congr Iff.rfl ⟨fun he => ⟨notice, he, hcall, rfl⟩, fun ⟨_, he, _⟩ => he⟩
  · refine List.rel_append (h.told.imp fun i event hcalled => ?_) (.cons ?_ .nil)
    · exact (called_take hc).2 (Or.inl hcalled)
    · exact (called_take hc).2 (Or.inr ⟨rfl, hcall, rfl⟩)

/-- Any other step is of no interest. -/
theorem take_other (h : o.Booked desk callers authors) (hc : o.clients[i]? = some c)
    (hcommit : ∀ changes, c.job.isCall = true →
      (⟨query, (o.answer query now name).1⟩ : Taken) ≠ .commit changes .committed)
    (hlog : ∀ notice, query ≠ .log notice)
    (htraces : ∀ c' ∈ (o.take i c query next now name).clients, Client.Traces desk c') :
    (o.take i c query next now name).Booked desk callers authors := by
  have hcommitted : ∀ j changes, (o.take i c query next now name).Called j
      (.commit changes .committed) ↔ o.Called j (.commit changes .committed) := by
    intro j changes
    rw [called_take hc]
    exact or_iff_left fun ⟨_, hcall, he⟩ => hcommit changes hcall he.symm
  have hlogged : ∀ j notice, (o.take i c query next now name).Called j ⟨.log notice, ()⟩ ↔
      o.Called j ⟨.log notice, ()⟩ := by
    intro j notice
    rw [called_take hc]
    exact or_iff_left fun ⟨_, _, he⟩ => hlog notice (congrArg Taken.query he).symm
  have hsame : (o.answer query now name).2.log = o.system.log := by
    cases query <;> first | rfl | exact absurd rfl (hlog _)
  refine ⟨htraces, ?_, h.once, fun j => ?_, h.onceLogged, fun j => ?_, ?_⟩
  · show Numbered (o.answer query now name).2.log
    rw [hsame]
    exact h.numbered
  · simp only [h.committed, hcommitted]
  · simp only [h.logged, hlogged]
  · show List.Forall₂ _ authors (o.answer query now name).2.log.events
    rw [hsame]
    exact h.told.imp fun i event hcalled => (hlogged i event.toNotice).2 hcalled

theorem enter (h : o.Booked desk callers authors) (job : Job) :
    (o.step desk (.enter job)).Booked desk callers authors := by
  refine ⟨traces_step o _ h.traces, h.numbered, h.once, fun j => ?_, h.onceLogged, fun j => ?_, ?_⟩
  · simp only [h.committed, called_enter]
  · simp only [h.logged, called_enter]
  · exact h.told.imp fun i event hcalled => (called_enter job).2 hcalled

/-- What is on the books stays right in every move. -/
theorem step (h : o.Booked desk callers authors) (move : Move) :
    (o.step desk move).Booked desk (callers ++ (o.caller? move).toList)
      (authors ++ (o.logger? move).toList) := by
  have htraces := traces_step o move h.traces
  cases hcaller : o.caller? move with
  | some i =>
      obtain ⟨c, changes, next, now, name, -, hc, hcall, hp, hverdict, hstep⟩ :=
        @of_caller? desk o i move hcaller
      rw [logger?_of_caller? hcaller, Option.toList_none, List.append_nil]
      rw [hstep] at htraces ⊢
      exact h.take_commit hc hcall hp hverdict htraces
  | none =>
      rw [Option.toList_none, List.append_nil]
      cases hlogger : o.logger? move with
      | some i =>
          obtain ⟨c, notice, next, now, name, hc, hp, hstep⟩ := @of_logger? desk o i move hlogger
          rw [hstep] at htraces ⊢
          exact h.take_log hc hp htraces
      | none =>
          rw [Option.toList_none, List.append_nil]
          rcases step_cases desk o move with ⟨job, rfl, -⟩ | hstep |
            ⟨i, c, query, next, now, name, rfl, hc, hp, -, hstep⟩
          · exact h.enter job
          · rw [hstep]
            exact h
          · rw [hstep] at htraces ⊢
            refine h.take_other hc
              (fun changes hcall => not_committed_of_caller? hc hp hcall hcaller) ?_ htraces
            rintro notice rfl
            simp only [logger?, hc, hp] at hlogger
            cases hlogger

theorem run (desk : Desk) {s : System} (hlog : s.log.events = []) (moves : List Move) :
    ((opening s).run desk moves).Booked desk ((opening s).callers desk moves)
      ((opening s).loggers desk moves) := by
  induction moves using List.reverseRecOn with
  | nil =>
      have hnone : ∀ i t, ¬ (opening s).Called i t := by
        rintro i t ⟨c, hc, -⟩
        cases hc
      refine ⟨fun c hm => (List.not_mem_nil hm).elim, ?_, List.nodup_nil, fun i => ?_,
        List.nodup_nil, fun i => ?_, ?_⟩
      · show s.log.events.map Event.sequence = List.range' 1 s.log.events.length
        rw [hlog]
        rfl
      · exact ⟨fun hm => (List.not_mem_nil hm).elim, fun ⟨_, h⟩ => (hnone i _ h).elim⟩
      · exact ⟨fun hm => (List.not_mem_nil hm).elim, fun ⟨_, h⟩ => (hnone i _ h).elim⟩
      · show List.Forall₂ _ [] s.log.events
        rw [hlog]
        exact .nil
  | append_singleton moves move ih =>
      have hlogger : ((opening s).run desk moves).loggers desk [move] =
          (((opening s).run desk moves).logger? move).toList := List.append_nil _
      rw [run_concat, callers_concat, loggers_append, hlogger]
      exact ih.step move

/-- Who logged an event has committed the call that the event is about. -/
theorem reports (h : o.Booked desk callers authors) {event : Event}
    (hcalled : o.Called i ⟨.log event.toNotice, ()⟩) :
    ∃ c, o.clients[i]? = some c ∧ c.Reports desk event ∧
      ∃ changes, .commit changes .committed ∈ c.journal := by
  obtain ⟨c, hc, -, hm⟩ := hcalled
  exact ⟨c, hc, (h.traces c (List.mem_of_getElem? hc)).reports hm⟩

/-- So those who logged are among those who have committed. -/
theorem authors_subset (h : o.Booked desk callers authors) : authors ⊆ callers := by
  intro i hi
  obtain ⟨notice, c, hc, hcall, hm⟩ := (h.logged i).1 hi
  have hm' : (⟨.log (⟨notice, 0⟩ : Event).toNotice, ()⟩ : Taken) ∈ c.journal := hm
  obtain ⟨-, changes, hcommit⟩ := (h.traces c (List.mem_of_getElem? hc)).reports hm'
  exact (h.committed i).2 ⟨changes, c, hc, hcall, hcommit⟩

end Booked

end Office

/-- The events of an office, after the moves that lead to it from the system `s`: they
are numbered in order from one on, and each is that of one client whose call has
committed. -/
structure EventsMatch (desk : Desk) (s : System) (moves : List Move) : Prop where
  numbered : Office.Numbered ((Office.opening s).run desk moves).system.log
  /-- No client has committed a call more than once. -/
  once : ((Office.opening s).callers desk moves).Nodup
  /-- The clients that have committed a call are those the events are about, in another
  order. -/
  matched : ∃ authors : List Nat, authors.Perm ((Office.opening s).callers desk moves) ∧
    List.Forall₂ (fun i event => ∃ c, ((Office.opening s).run desk moves).clients[i]? = some c ∧
      c.Reports desk event ∧ (desk.table = .standard → c.Announces event)) authors
      ((Office.opening s).run desk moves).system.log.events
  /-- Who has committed no call has logged nothing. -/
  others : ∀ i c, ((Office.opening s).run desk moves).clients[i]? = some c →
    i ∉ (Office.opening s).callers desk moves → ∀ notice, ⟨.log notice, ()⟩ ∉ c.journal

/-- Whatever the clients do in whatever order: where none of them is between the commit
of a call and its event, the events in the log are those of the calls that have
committed, one for each. -/
theorem events_match_commits (desk : Desk) (s : System) (hlog : s.log.events = [])
    (moves : List Move)
    (howes : ∀ c ∈ ((Office.opening s).run desk moves).clients, c.owes = false) :
    EventsMatch desk s moves := by
  have h := Office.Booked.run desk hlog moves
  have hsame : ∀ i, i ∈ (Office.opening s).loggers desk moves ↔
      i ∈ (Office.opening s).callers desk moves := by
    intro i
    refine ⟨fun hi => h.authors_subset hi, fun hi => ?_⟩
    obtain ⟨changes, c, hc, hcall, hm⟩ := (h.committed i).1 hi
    have hmem := List.mem_of_getElem? hc
    obtain ⟨notice, hm'⟩ := (h.traces c hmem).exists_log hcall (howes c hmem) hm
    exact (h.logged i).2 ⟨notice, c, hc, hcall, hm'⟩
  refine ⟨h.numbered, h.once, ⟨_, (List.perm_ext_iff_of_nodup h.onceLogged h.once).2 hsame,
    h.told.imp fun i event hcalled => ?_⟩, fun i c hc hnone notice hm => ?_⟩
  · obtain ⟨c, hc, hreport, -⟩ := h.reports hcalled
    exact ⟨c, hc, hreport, fun htable => hreport.announces htable⟩
  · have hm' : (⟨.log (⟨notice, 0⟩ : Event).toNotice, ()⟩ : Taken) ∈ c.journal := hm
    obtain ⟨hreport, changes, hcommit⟩ := (h.traces c (List.mem_of_getElem? hc)).reports hm'
    have hcall : c.job.isCall = true := by
      cases hreport
      rfl
    exact hnone ((h.committed i).2 ⟨changes, c, hc, hcall, hcommit⟩)

/-- Cy's version is committed first and Bob's, which has to be taken again, is logged
first. Dan looks at a version and is refused a commit. -/
theorem events_match_commits_versions :
    let call (user : String) (call : Call) : Move := .enter (.call "a" user call)
    let step (client : Nat) : Move := .advance client .epoch ""
    let moves : List Move :=
      [.enter (.create none .unpublished .null "ann"), .advance 0 .epoch "a",
        .advance 0 .epoch "v", step 0, step 0, call "bob" .version, call "cy" .version, step 1,
        step 2, step 1, step 2, step 1, step 2, step 2] ++ List.replicate 7 (step 1) ++
      [step 2, step 2, call "dan" (.retrieveVersion .epoch), step 3, step 3, call "dan" .commit,
        step 4, step 4]
    let o := (Office.opening {}).run {} moves
    (∀ c ∈ o.clients, c.owes = false) ∧ (Office.opening {}).callers {} moves = [2, 1] ∧
      o.system.log.events.map (fun event => (event.sequence, event.user)) =
        [(1, "bob"), (2, "cy")] ∧
      EventsMatch {} {} moves := by
  intro call step moves o
  have howes : ∀ c ∈ o.clients, c.owes = false := by decide +kernel
  exact ⟨howes, by decide +kernel, by decide +kernel, events_match_commits {} {} rfl moves howes⟩

end Editorial
