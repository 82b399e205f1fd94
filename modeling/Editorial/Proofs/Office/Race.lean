import Editorial.Proofs.Desk.Race
import Editorial.Proofs.Office.Events
import Editorial.Proofs.Office.Quiet

/-!
# One winner

Many clients make the same call about a document, and only one of them can have what
they want. As long as nobody has committed, everybody is answered by the system as it
was. The first commit goes through, and it shuts the document to the others: who has
prepared the same commit meets a conflict, and who loads the document from then on is
denied. So that commit is the only one, and whoever else comes to an end was late.

There is no need to look at who is in which attempt. What the clients were told is
enough: the winner's commit divides what each of the others was told in two.

## Main results

* `Undecided.moved`, `Decided.moved` — what a move makes of a race.
* `one_winner` — what a race comes to when all calls have ended.
-/

namespace Editorial

namespace System

variable {s : System} {id : String} {op : Operation} {stored : Stored} {users : List String}
  {call : Call}

/-- A race that may begin: the document is stored, in its place, and open. -/
structure BeginsRace (s : System) (id : String) (stored : Stored) (users : List String)
    (call : Call) (op : Operation) : Prop where
  get : s.store.get? id = some stored
  filed : s.store.Filed
  spread : s.store.Spread
  sound : stored.record.IsSound
  readable : s.backend.canRead stored.record = true
  race : Race stored.record users call op

/-- The document is open to all users, and it is shut to those who are late. -/
theorem BeginsRace.shuts_to (h : s.BeginsRace id stored users call op) {late : Taken → Prop}
    {user : String} (hshut : ∀ answer, late ⟨.load id, answer⟩ →
      ∃ loaded, answer = .ok (some loaded) ∧
        (Hints.ofHandle ⟨loaded.record, loaded.revision, user⟩).allows op none = false)
    (hdecides : ∀ changes answer, late ⟨.commit changes, answer⟩ →
      ∃ verdict, answer = .ok verdict) :
    s.Shuts late id user op stored where
  get := h.get
  filed := h.filed id stored h.get
  spread := h.spread
  sound := h.sound
  readable := h.readable
  exclusive := h.race.exclusive
  opens := h.race.allows h.sound s.backend user
  shut := hshut
  decides := hdecides

/-- Nobody is late before the race is decided. -/
theorem BeginsRace.shuts (h : s.BeginsRace id stored users call op) (user : String) :
    s.Shuts (fun _ => False) id user op stored :=
  h.shuts_to (fun _ => False.elim) fun _ _ => False.elim

/-- The system after the winner's commit, which leaves the record `r`. -/
def wonBy (s : System) (stored : Stored) (r : Record) : System :=
  s.committing [.put r (some stored.revision)]

/-- What a winner may leave of the document. -/
structure Prize (b : Backend) (id : String) (stored : Stored) (op : Operation) (winner : String)
    (r : Record) : Prop where
  id_eq : r.id = id
  location_eq : r.location = stored.record.location
  readable : b.canRead r = true
  won : r.WonBy winner op

namespace BeginsRace

variable {r : Record} {winner : String}

/-- The winner's commit goes through. -/
theorem committed (h : s.BeginsRace id stored users call op)
    (hr : Prize s.backend id stored op winner r) :
    (s.backend.commit s.store [.put r (some stored.revision)]).1 = .committed :=
  Store.commit_replace h.spread s.backend (hr.id_eq ▸ h.get) hr.location_eq

theorem get?_wonBy (h : s.BeginsRace id stored users call op)
    (hr : Prize s.backend id stored op winner r) :
    (s.wonBy stored r).store.get? id = some ⟨r, stored.revision + 1⟩ := by
  have hstore : (s.wonBy stored r).store = _ := Backend.commit_of_committed (h.committed hr)
  rw [hstore, ← hr.id_eq]
  exact s.store.get?_applyAll_put r (some stored.revision)

/-- After the winner's commit the document is shut to the others. -/
theorem shuts_wonBy (h : s.BeginsRace id stored users call op)
    (hr : Prize s.backend id stored op winner r) {user : String}
    (huser : op = .obtain → user ≠ winner) :
    s.Shuts (Taken.AnsweredBy (s.wonBy stored r)) id user op stored := by
  refine h.shuts_to (fun answer hanswer => ?_) fun _ _ ht => ⟨_, ht⟩
  refine ⟨s.backend.handsOut ⟨r, stored.revision + 1⟩, ?_, ?_⟩
  · exact hanswer.trans (Backend.load_of_canRead (h.get?_wonBy hr) hr.readable)
  · have hwon : (s.backend.handsOut ⟨r, stored.revision + 1⟩).record.WonBy winner op :=
      Record.WonBy.handsOut hr.won
    exact hwon.denies huser

end BeginsRace

end System

/-! ## Moves of a race -/

theorem Client.Traces.exists_commit_of_log {desk : Desk} {c : Client} (h : c.Traces desk)
    {notice : Notice} {next : Unit → Process (Except Failure Product)}
    (hp : c.process = .ask (.log notice) next) :
    ∃ changes, .commit changes .committed ∈ c.journal := by
  have hstanding := h.standing
  rw [hp] at hstanding
  generalize c.journal = journal at hstanding
  cases hstanding with
  | before hidle hlogs => exact absurd rfl (hlogs.1 notice)
  | timed hidle hmade => exact ⟨_, List.mem_append_right _ (List.mem_cons_self ..)⟩

namespace Office

variable {desk : Desk} {s s' : System} {o o' : Office} {id : String} {op : Operation}
  {stored : Stored} {users : List String} {call : Call} {i j w : Nat} {c : Client} {query : Query}
  {next : query.Answer → Process (Except Failure Product)} {now : Instant} {name : String}

/-- What client number `i` was told so far; nothing if there is no such client. -/
def journal (o : Office) (i : Nat) : List Taken := o.clients[i]?.elim [] Client.journal

theorem journal_eq (hc : o.clients[i]? = some c) : o.journal i = c.journal := by
  rw [journal, hc]
  rfl

theorem journal_enter (desk : Desk) (o : Office) (job : Job) (i : Nat) :
    (o.step desk (.enter job)).journal i = o.journal i := by
  show (o.clients ++ [_])[i]?.elim [] Client.journal = o.clients[i]?.elim [] Client.journal
  rcases Nat.lt_or_ge i o.clients.length with hlt | hge
  · rw [List.getElem?_append_left hlt]
  · rw [List.getElem?_append_right hge, List.getElem?_eq_none hge]
    cases i - o.clients.length <;> rfl

theorem journal_take_self (hc : o.clients[i]? = some c) :
    (o.take i c query next now name).journal i =
      o.journal i ++ [⟨query, (o.answer query now name).1⟩] := by
  have hlt : i < o.clients.length := (List.getElem?_eq_some_iff.1 hc).1
  rw [journal_eq hc, journal_eq (List.getElem?_set_self hlt)]

theorem journal_take_ne (hne : j ≠ i) :
    (o.take i c query next now name).journal j = o.journal j := by
  show (o.clients.set i _)[j]?.elim [] Client.journal = _
  rw [List.getElem?_set_ne hne.symm]
  rfl

/-- A move of no consequence: nothing is stored or logged. -/
structure Passes (o o' : Office) : Prop where
  same : System.SameData o.system o'.system
  log : o'.system.log = o.system.log
  journals : ∀ i, ∃ path, o'.journal i = o.journal i ++ path ∧
    ∀ t ∈ path, t.IsIdle ∧ t.AnsweredBy o.system

/-- What a move can be of consequence for: a client commits or logs. -/
inductive Moves (o : Office) : Office → Prop
  | passed {o' : Office} (hpasses : o.Passes o') : Moves o o'
  | committed {i : Nat} {c : Client} {changes : List Change}
      {next : Except Failure Verdict → Process (Except Failure Product)} {now : Instant}
      {name : String} (hc : o.clients[i]? = some c) (hp : c.process = .ask (.commit changes) next)
      (hverdict : (o.system.backend.commit o.system.store changes).1 = .committed) :
      Moves o (o.take i c (.commit changes) next now name)
  | logged {i : Nat} {c : Client} {notice : Notice}
      {next : Unit → Process (Except Failure Product)} {now : Instant} {name : String}
      (hc : o.clients[i]? = some c) (hp : c.process = .ask (.log notice) next) :
      Moves o (o.take i c (.log notice) next now name)

theorem Passes.of_journal (hsame : System.SameData o.system o'.system)
    (hlog : o'.system.log = o.system.log) (hjournal : ∀ i, o'.journal i = o.journal i) :
    o.Passes o' :=
  ⟨hsame, hlog, fun i => ⟨[], (hjournal i).trans (List.append_nil _).symm,
    List.forall_mem_nil _⟩⟩

theorem passes_take (hc : o.clients[i]? = some c) (hlog : ∀ notice, query ≠ .log notice)
    (hidle : Taken.IsIdle ⟨query, (o.answer query now name).1⟩) :
    o.Passes (o.take i c query next now name) := by
  refine ⟨sameData_of_isIdle hidle, ?_, fun j => ?_⟩
  · show (o.answer query now name).2.log = o.system.log
    cases query <;> first | rfl | exact absurd rfl (hlog _)
  · by_cases hj : j = i
    · subst hj
      refine ⟨_, journal_take_self hc, fun t hm => ?_⟩
      rw [List.mem_singleton.1 hm]
      exact ⟨hidle, o.answeredBy_answer query now name⟩
    · exact ⟨[], (journal_take_ne hj).trans (List.append_nil _).symm, List.forall_mem_nil _⟩

theorem moves_step (desk : Desk) (o : Office) (move : Move) : o.Moves (o.step desk move) := by
  rcases step_cases desk o move with ⟨job, rfl, -⟩ | hstep |
    ⟨i, c, query, next, now, name, -, hc, hp, -, hstep⟩
  · exact .passed (.of_journal (System.SameData.refl _) rfl (journal_enter desk o job))
  · rw [hstep]
    exact .passed (.of_journal (System.SameData.refl _) rfl fun _ => rfl)
  · rw [hstep]
    cases query with
    | log notice => exact .logged hc hp
    | commit changes =>
        by_cases hverdict : (o.system.backend.commit o.system.store changes).1 = .committed
        · exact .committed hc hp hverdict
        · exact .passed (passes_take hc (fun _ => nofun) fun he => hverdict (Except.ok.inj he))
    | now | fresh kind | load id | find location | folder category container
    | pause milliseconds => exact .passed (passes_take hc (fun _ => nofun) trivial)

/-! ## Where a race stands -/

/-- Every client makes the call for its user. -/
def Races (o : Office) (id : String) (call : Call) (users : List String) : Prop :=
  ∀ (i : Nat) (c : Client), o.clients[i]? = some c →
    ∃ user, users[i]? = some user ∧ c.job = .call id user call

theorem Races.of_step {move : Move} (h : (o.step desk move).Races id call users) :
    o.Races id call users := by
  intro i c hc
  rcases client_step desk hc move with ⟨hstays, -⟩ | ⟨query, next, now, name, -, -, -, hstep⟩
  · exact h i c hstays
  · have hlt : i < o.clients.length := (List.getElem?_eq_some_iff.1 hc).1
    rw [hstep] at h
    obtain ⟨user, huser, hjob⟩ := h i _ (List.getElem?_set_self hlt)
    exact ⟨user, huser, hjob⟩

/-- Nobody has committed yet: the system is as it was, and answers as it did. -/
structure Undecided (desk : Desk) (s : System) (o : Office) : Prop where
  traces : ∀ c ∈ o.clients, Client.Traces desk c
  same : System.SameData s o.system
  log : o.system.log = s.log
  journals : ∀ i, ∀ t ∈ o.journal i, t.IsIdle ∧ t.AnsweredBy s

/-- The log when the steps `journal` have been taken by the only one who logs. -/
inductive Reported (log log' : EventLog) (journal : List Taken) : Prop
  | pending (hnone : ∀ notice, ⟨.log notice, ()⟩ ∉ journal) (hlog : log' = log)
  | logged {notice : Notice} (hm : ⟨.log notice, ()⟩ ∈ journal)
      (hlog : log' = (log.append notice).2)

/-- Client number `w` has committed, which made the system `s'` of `s`, and it is the
only one that has. -/
structure Decided (desk : Desk) (s s' : System) (w : Nat) (o : Office) : Prop where
  traces : ∀ c ∈ o.clients, Client.Traces desk c
  same : System.SameData s' o.system
  winner : ∃ changes, .commit changes .committed ∈ o.journal w
  reported : Reported s.log o.system.log (o.journal w)
  idle : ∀ i, i ≠ w → ∀ t ∈ o.journal i, t.IsIdle
  turns : ∀ i, i ≠ w → s.AnswersUntil (Taken.AnsweredBy s') (o.journal i)

/-- Where a race stands that began in the system `s`. -/
inductive Racing (desk : Desk) (s : System) (id : String) (stored : Stored)
    (users : List String) (op : Operation) (o : Office) : Prop
  | undecided (hundecided : o.Undecided desk s)
  | decided {w : Nat} {user : String} {r : Record} (huser : users[w]? = some user)
      (hprize : System.Prize s.backend id stored op user r)
      (hdecided : o.Decided desk s (s.wonBy stored r) w)

theorem Reported.append {log log' : EventLog} {journal path : List Taken}
    (h : Reported log log' journal) (hidle : ∀ t ∈ path, t.IsIdle) :
    Reported log log' (journal ++ path) := by
  cases h with
  | pending hnone hlog =>
      refine .pending (fun notice hm => ?_) hlog
      exact (List.mem_append.1 hm).elim (hnone notice) fun hm => hidle _ hm
  | logged hm hlog => exact .logged (List.mem_append_left _ hm) hlog

section

variable (hbegins : s.BeginsRace id stored users call op) (htable : desk.table = .standard)
  (hraces : o.Races id call users) (htraces : ∀ c ∈ o'.clients, Client.Traces desk c)
include htraces

theorem Undecided.passes (h : o.Undecided desk s) (hpasses : o.Passes o') :
    o'.Undecided desk s := by
  refine ⟨htraces, h.same.trans hpasses.same, hpasses.log.trans h.log, fun i => ?_⟩
  obtain ⟨path, hjournal, hpath⟩ := hpasses.journals i
  rw [hjournal]
  exact List.forall_mem_append.2 ⟨h.journals i, fun t hm =>
    ⟨(hpath t hm).1, h.same.answeredBy (hpath t hm).2⟩⟩

theorem Decided.passes (h : o.Decided desk s s' w) (hpasses : o.Passes o') :
    o'.Decided desk s s' w := by
  refine ⟨htraces, h.same.trans hpasses.same, ?_, ?_, fun i hi => ?_, fun i hi => ?_⟩
  · obtain ⟨path, hjournal, -⟩ := hpasses.journals w
    obtain ⟨changes, hm⟩ := h.winner
    rw [hjournal]
    exact ⟨changes, List.mem_append_left _ hm⟩
  · obtain ⟨path, hjournal, hpath⟩ := hpasses.journals w
    rw [hjournal, hpasses.log]
    exact h.reported.append fun t hm => (hpath t hm).1
  · obtain ⟨path, hjournal, hpath⟩ := hpasses.journals i
    rw [hjournal]
    exact List.forall_mem_append.2 ⟨h.idle i hi, fun t hm => (hpath t hm).1⟩
  · obtain ⟨path, hjournal, hpath⟩ := hpasses.journals i
    rw [hjournal]
    exact (h.turns i hi).append fun t hm => h.same.answeredBy (hpath t hm).2

include hbegins htable hraces in
/-- The first commit decides the race. -/
theorem Undecided.moved (h : o.Undecided desk s) (hmoves : o.Moves o') :
    o'.Racing desk s id stored users op := by
  cases hmoves with
  | passed hpasses => exact .undecided (h.passes htraces hpasses)
  | logged hc hp =>
      obtain ⟨changes, hm⟩ := (h.traces _ (List.mem_of_getElem? hc)).exists_commit_of_log hp
      rw [← journal_eq hc] at hm
      exact absurd rfl (h.journals _ _ hm).1
  | @committed i c changes next now name hc hp hverdict =>
      obtain ⟨user, huser, hjob⟩ := hraces i c hc
      have hreaches := (h.traces c (List.mem_of_getElem? hc)).reaches hp
      rw [hjob] at hreaches
      obtain ⟨r, rfl, hid, hlocation, hreadable, hwon⟩ :=
        Desk.put_of_reaches (hbegins.shuts user) htable hbegins.race hreaches fun t hm =>
          Or.inl (h.journals i t (by rwa [journal_eq hc])).2
      refine .decided huser ⟨hid, hlocation, hreadable, hwon⟩ ⟨htraces, ?_, ?_, ?_, ?_, ?_⟩
      · exact (h.same.committing _).trans ⟨rfl, rfl, rfl⟩
      · rw [journal_take_self hc]
        exact ⟨_, List.mem_append_right _ (List.mem_singleton.2 (congrArg _ hverdict.symm))⟩
      · rw [journal_take_self hc]
        refine .pending (fun notice hm => ?_) h.log
        rcases List.mem_append.1 hm with hm | hm
        · exact (h.journals i _ hm).1
        · cases List.mem_singleton.1 hm
      · intro j hj
        rw [journal_take_ne hj]
        exact fun t hm => (h.journals j t hm).1
      · intro j hj
        rw [journal_take_ne hj]
        exact .of_answered fun t hm => (h.journals j t hm).2

include hbegins htable hraces in
/-- After that there is no other. -/
theorem Decided.moved {user : String} {r : Record} (huser : users[w]? = some user)
    (hprize : System.Prize s.backend id stored op user r)
    (h : o.Decided desk s (s.wonBy stored r) w)
    (hmoves : o.Moves o') : o'.Decided desk s (s.wonBy stored r) w := by
  cases hmoves with
  | passed hpasses => exact h.passes htraces hpasses
  | @committed i c changes next now name hc hp hverdict =>
      have hnone := (h.traces c (List.mem_of_getElem? hc)).of_commit hp
      rw [← journal_eq hc] at hnone
      by_cases hi : i = w
      · subst hi
        obtain ⟨changes', hm⟩ := h.winner
        exact absurd rfl (hnone _ hm)
      · obtain ⟨user', huser', hjob⟩ := hraces i c hc
        have hreaches := (h.traces c (List.mem_of_getElem? hc)).reaches hp
        rw [hjob] at hreaches
        have hshuts := hbegins.shuts_wonBy hprize fun hop =>
          hbegins.race.ne_of_getElem? hop huser' huser hi
        obtain ⟨r', rfl, hid, -⟩ :=
          Desk.put_of_reaches hshuts htable hbegins.race hreaches fun t hm =>
            (h.turns i hi).answered_or_late t (by rwa [journal_eq hc])
        have hdistinct : ([.put r' (some stored.revision)] : List Change).map Change.id |>.Nodup :=
          List.nodup_singleton _
        have hrevision : o.system.store.revision? r'.id = some stored.revision :=
          Store.expected_of_commit o.system.backend hdistinct hverdict _ (List.mem_singleton_self _)
        rw [h.same.store, hid, Store.revision?_of_get? (hbegins.get?_wonBy hprize)] at hrevision
        exact absurd (Option.some.inj hrevision) (Nat.succ_ne_self _)
  | @logged i c notice next now name hc hp =>
      obtain ⟨hcall, hnone⟩ := (h.traces c (List.mem_of_getElem? hc)).of_log hp
      obtain ⟨changes, hm⟩ := (h.traces c (List.mem_of_getElem? hc)).exists_commit_of_log hp
      rw [← journal_eq hc] at hm hnone
      obtain rfl : i = w := by
        by_contra hi
        exact h.idle i hi _ hm rfl
      refine ⟨htraces, h.same.trans ⟨rfl, rfl, rfl⟩, ?_, ?_, fun j hj => ?_, fun j hj => ?_⟩
      · rw [journal_take_self hc]
        exact ⟨changes, List.mem_append_left _ hm⟩
      · rw [journal_take_self hc]
        refine .logged (List.mem_append_right _ (List.mem_singleton_self _)) ?_
        cases h.reported with
        | pending hnone' hlog =>
            show (o.system.log.append notice).2 = _
            rw [hlog]
        | logged hm' hlog => exact absurd hm' (hnone _)
      · rw [journal_take_ne hj]
        exact h.idle j hj
      · rw [journal_take_ne hj]
        exact h.turns j hj

end

/-- Where a race stands after some moves. -/
theorem racing_run (hbegins : s.BeginsRace id stored users call op)
    (htable : desk.table = .standard) {moves : List Move}
    (hraces : ((opening s).run desk moves).Races id call users) :
    ((opening s).run desk moves).Racing desk s id stored users op := by
  induction moves using List.reverseRecOn with
  | nil =>
      exact .undecided ⟨List.forall_mem_nil _, System.SameData.refl s, rfl,
        fun i => List.forall_mem_nil _⟩
  | append_singleton moves move ih =>
      rw [run_concat] at hraces ⊢
      have hbefore := hraces.of_step
      have hmoves := moves_step desk ((opening s).run desk moves) move
      cases ih hbefore with
      | undecided h =>
          exact h.moved hbegins htable hbefore (traces_step _ move h.traces) hmoves
      | decided huser hprize h =>
          have htraces := traces_step _ move h.traces
          exact .decided huser hprize (h.moved hbegins htable hbefore htraces huser hprize hmoves)

/-! ## What a race comes to -/

/-- A call that has ended was led there by what its client was told. -/
theorem Races.exists_leads (hraces : o.Races id call users)
    (htraces : ∀ c ∈ o.clients, Client.Traces desk c) {result : Option (Except Failure Product)}
    (hended : o.ended? i = some result) :
    ∃ user, users[i]? = some user ∧
      (desk.process (.call id user call)).Leads (o.journal i) result := by
  obtain ⟨c, hc, hp⟩ := of_ended? hended
  obtain ⟨user, huser, hjob⟩ := hraces i c hc
  have hreaches := (htraces c (List.mem_of_getElem? hc)).reaches hp
  rw [hjob, ← journal_eq hc] at hreaches
  exact ⟨user, huser, hreaches⟩

section

variable (hbegins : s.BeginsRace id stored users call op) (htable : desk.table = .standard)
  (hraces : o.Races id call users)
include hbegins htable hraces

/-- No call ends before the race is decided. -/
theorem Undecided.ended?_eq_none (husable : desk.settings.IsUsable) (h : o.Undecided desk s)
    (i : Nat) : o.ended? i = none := by
  refine Option.eq_none_iff_forall_ne_some.2 fun result hended => ?_
  obtain ⟨user, -, hl⟩ := hraces.exists_leads h.traces hended
  obtain ⟨⟨t, -, hlate⟩, -⟩ := Desk.denied_of_leads_process (hbegins.shuts user) htable husable
    hbegins.race hl (fun t hm => (h.journals i t hm).1)
    (.of_answered fun t hm => (h.journals i t hm).2)
  exact hlate

variable {winner : String} {r : Record} (hwinner : users[w]? = some winner)
  (hprize : System.Prize s.backend id stored op winner r)
  (h : o.Decided desk s (s.wonBy stored r) w)
include h

include hwinner hprize in
/-- All others are denied. -/
theorem Decided.denied (husable : desk.settings.IsUsable) (hi : i ≠ w)
    {result : Option (Except Failure Product)} (hended : o.ended? i = some result) :
    result = some (.error (.denied op)) := by
  obtain ⟨user, huser, hl⟩ := hraces.exists_leads h.traces hended
  have hshuts := hbegins.shuts_wonBy hprize fun hop =>
    hbegins.race.ne_of_getElem? hop huser hwinner hi
  exact (Desk.denied_of_leads_process hshuts htable husable hbegins.race hl (h.idle i hi)
    (h.turns i hi)).2

include hwinner in
/-- The winner succeeds, and its event is logged. -/
theorem Decided.succeeded {result : Option (Except Failure Product)}
    (hended : o.ended? w = some result) :
    (∃ reply, result = some (.ok (.reply reply))) ∧
      ∃ event, o.system.log.events = s.log.events ++ [event] ∧ event.handle = id ∧
        event.operation = op ∧ event.user = winner := by
  obtain ⟨c, hc, hp⟩ := of_ended? hended
  obtain ⟨user, huser, hjob⟩ := hraces w c hc
  obtain rfl : user = winner := Option.some.inj (huser.symm.trans hwinner)
  have htraces := h.traces c (List.mem_of_getElem? hc)
  obtain ⟨changes, hm⟩ := h.winner
  rw [journal_eq hc] at hm
  have hcall : c.job.isCall = true := by rw [hjob]; rfl
  obtain ⟨notice, hlogged⟩ := htraces.exists_log_of_ended hcall hp hm
  cases h.reported with
  | pending hnone hlog =>
      rw [journal_eq hc] at hnone
      exact absurd hlogged (hnone notice)
  | @logged notice hm hlog =>
      rw [journal_eq hc] at hm
      obtain ⟨hreports, -⟩ : c.Reports desk ⟨notice, s.log.nextSequence⟩ ∧ _ := htraces.reports hm
      obtain ⟨reply, hdone, -⟩ := (hreports.announces htable).answered
      refine ⟨⟨reply, ?_⟩, ⟨notice, s.log.nextSequence⟩, by rw [hlog]; rfl, ?_⟩
      · rw [hp] at hdone
        cases result <;> cases hdone
        rfl
      · cases hreports with
        | intro hasks hop hidle hprepared hconcludes =>
            cases hjob
            exact ⟨rfl, (hbegins.race.asks hasks).1, rfl⟩

end

end Office

/-- In the office `o` client number `w`, who is `user`, has won a race that began in the
system `s`, where the document `id` was `stored`. -/
structure Won (s : System) (id : String) (stored : Stored) (op : Operation) (o : Office)
    (w : Nat) (user : String) : Prop where
  succeeded : ∃ reply, o.ended? w = some (some (.ok (.reply reply)))
  denied : ∀ i, i ≠ w → i < o.clients.length → o.ended? i = some (some (.error (.denied op)))
  leaves : ∃ r, o.system.store.get? id = some ⟨r, stored.revision + 1⟩ ∧ r.WonBy user op
  logged : ∃ event, o.system.log.events = s.log.events ++ [event] ∧ event.handle = id ∧
    event.operation = op ∧ event.user = user

/-- Any number of clients, one for each of the users, make the same call, which only one
of them can win, about a valid document, and nobody does anything else. As in all stores
that commits have left, every record is under its id and no two are in one place. The
document can be loaded: in a table, if none of its contents is nested deeper than
`Payload.depthLimit` (`Backend.canRead_iff`). In whatever order the clients take their
steps, once all calls have ended one of them has won. -/
theorem one_winner (desk : Desk) (htable : desk.table = .standard)
    (husable : desk.settings.IsUsable) (s : System) (hfiled : s.store.Filed)
    (hspread : s.store.Spread) {id : String} {stored : Stored}
    (hget : s.store.get? id = some stored) (hreadable : s.backend.canRead stored.record = true)
    (hvalid : stored.record.check = .ok ()) {users : List String} (husers : users ≠ [])
    {call : Call} {op : Operation} (race : Race stored.record users call op) (moves : List Move)
    (hjobs : ((Office.opening s).run desk moves).clients.map Client.job =
      users.map fun user => .call id user call)
    (hended : ∀ i, i < users.length →
      (((Office.opening s).run desk moves).ended? i).isSome = true) :
    ∃ w user, users[w]? = some user ∧
      Won s id stored op ((Office.opening s).run desk moves) w user := by
  have hbegins : s.BeginsRace id stored users call op :=
    ⟨hget, hfiled, hspread, (Record.check_eq_ok_iff _).1 hvalid, hreadable, race⟩
  have hraces : ((Office.opening s).run desk moves).Races id call users := by
    intro i c hc
    have hjob := congrArg (·[i]?) hjobs
    simp only [List.getElem?_map, hc, Option.map_some] at hjob
    obtain ⟨user, huser, hjob⟩ := Option.map_eq_some_iff.1 hjob.symm
    exact ⟨user, huser, hjob.symm⟩
  have hlength : ((Office.opening s).run desk moves).clients.length = users.length := by
    rw [← List.length_map (f := Client.job), hjobs, List.length_map]
  cases Office.racing_run hbegins htable hraces with
  | undecided h =>
      have hfirst := hended 0 (List.length_pos_iff.2 husers)
      rw [h.ended?_eq_none hbegins htable hraces husable] at hfirst
      cases hfirst
  | @decided w user r huser hprize h =>
      obtain ⟨result, hresult⟩ :=
        Option.isSome_iff_exists.1 (hended w (List.getElem?_eq_some_iff.1 huser).1)
      obtain ⟨⟨reply, rfl⟩, hlogged⟩ := h.succeeded hbegins htable hraces huser hresult
      refine ⟨w, user, huser, ⟨reply, hresult⟩, fun i hi hlt => ?_, ⟨r, ?_, hprize.won⟩, hlogged⟩
      · obtain ⟨result, hresult⟩ := Option.isSome_iff_exists.1 (hended i (hlength ▸ hlt))
        rw [hresult, h.denied hbegins htable hraces huser hprize husable hi hresult]
      · rw [h.same.store]
        exact hbegins.get?_wonBy hprize

/-- Three users ask for the draft. Ann and Bob both find the document open, and Bob's
commit comes first; Cy looks at it too late, and so does Ann in her second attempt. -/
theorem one_winner_obtain :
    let stored : Stored := ⟨.single "a" none (.make "v" .unpublished .null "ann" .epoch), 1⟩
    let s : System := { store := .ofList [("a", stored)] }
    let users : List String := ["ann", "bob", "cy"]
    let step (client : Nat) : Move := .advance client .epoch ""
    let moves : List Move :=
      users.map (fun user => .enter (.call "a" user .obtain)) ++
        [step 0, step 1, step 0, step 0, .advance 0 .epoch "w", step 1, step 1,
          .advance 1 .epoch "x", step 2] ++
        List.replicate 3 (step 1) ++ [step 0, step 2, step 0, step 0]
    let o := (Office.opening s).run {} moves
    (s.store.Filed ∧ s.store.Spread ∧ s.store.get? "a" = some stored ∧
        s.backend.canRead stored.record = true ∧ stored.record.check = .ok () ∧
        Race stored.record users .obtain .obtain ∧
        o.clients.map Client.job = users.map (fun user => .call "a" user .obtain) ∧
        ∀ i, i < users.length → (o.ended? i).isSome = true) ∧
      ∃ w user, users[w]? = some user ∧ Won s "a" stored .obtain o w user := by
  intro stored s users step moves o
  have hfiled : s.store.Filed := by decide +kernel
  have hspread : s.store.Spread := by decide +kernel
  have hvalid : stored.record.check = .ok () := by decide +kernel
  have race : Race stored.record users .obtain .obtain := .obtain (by decide) (by decide)
  have hjobs : o.clients.map Client.job = users.map fun user => .call "a" user .obtain := by
    decide +kernel
  have hended : ∀ i, i < users.length → (o.ended? i).isSome = true := by decide +kernel
  exact ⟨⟨hfiled, hspread, rfl, rfl, hvalid, race, hjobs, hended⟩,
    one_winner {} rfl Settings.isUsable_default s hfiled hspread rfl rfl hvalid
      (List.cons_ne_nil _ _) race moves hjobs hended⟩

end Editorial
