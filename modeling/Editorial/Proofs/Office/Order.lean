import Editorial.Proofs.Office.Events
import Editorial.Proofs.Office.Quiet

/-!
# The order of events

An event is logged after its commit, in a step of its own, and nothing ties the two
together. So the events of one document need not be in the order of its commits: a client
that has committed may be overtaken by another that commits and logs before it does. But
that is all that can happen. Two events are the other way round than their commits only if
the second commit was made while the first client still owed its event. Where nobody is
overtaken on a document, its events are in the order of its commits, and every channel
hands them out in that order.

## Main results

* `logged_in_turn` — who has logged by the time of another's commit has its event before
  the other's.
* `events_in_log_order` — how far the events are in the order of the commits.
-/

namespace Editorial

open scoped List

/-- The document that a job is about, if it is there already. -/
def Job.document? : Job → Option String
  | .call id _ _ => some id
  | .create _ _ _ _ => none

/-- What a client logged. -/
def Client.notice? (c : Client) : Option Notice :=
  c.journal.findSome? fun
    | ⟨.log notice, _⟩ => some notice
    | _ => none

/-- A client whose event is in the log has logged this event and no other. -/
theorem Client.Reports.notice? {desk : Desk} {c : Client} {event : Event}
    (h : c.Reports desk event) :
    c.notice? = some event.toNotice ∧ c.job.document? = some event.handle := by
  cases h with
  | @intro id user call op arguments earlier last changes t now reply? sequence hasks hop hidle
      hprepared hconcludes =>
      have hnone : (earlier ++ last).findSome? (fun t : Taken => match t with
          | ⟨.log notice, _⟩ => some notice
          | _ => none) = none := by
        refine List.findSome?_eq_none_iff.2 fun step hm => ?_
        have hstep := hidle step hm
        rcases step with ⟨query, answer⟩
        cases query <;> first | rfl | exact False.elim hstep
      refine ⟨?_, rfl⟩
      unfold Client.notice?
      rw [List.findSome?_append, hnone]
      rfl

namespace Office

variable {desk : Desk} {s : System} {o : Office} {i j : Nat} {c : Client} {moves : List Move}
  {id : String} {notice : Notice}

/-- The document that the job of client number `i` is about. -/
def document? (o : Office) (i : Nat) : Option String := do (← o.clients[i]?).job.document?

/-- What client number `i` logged. -/
def notice? (o : Office) (i : Nat) : Option Notice := do (← o.clients[i]?).notice?

/-- The move commits a call on a document while another client, which has committed one on
it, still owes the event. -/
def Overtakes (o : Office) (id : String) (move : Move) : Prop :=
  ∃ (i j : Nat) (c : Client), o.caller? move = some j ∧ o.document? j = some id ∧
    o.clients[i]? = some c ∧ c.job.document? = some id ∧ c.owes = true

theorem job_run (desk : Desk) (hc : o.clients[i]? = some c) (moves : List Move) :
    ∃ c', (o.run desk moves).clients[i]? = some c' ∧ c'.job = c.job := by
  induction moves generalizing o c with
  | nil => exact ⟨c, hc, rfl⟩
  | cons move moves ih =>
      rcases client_step desk hc move with ⟨hsame, -⟩ |
        ⟨query, next, now, name, -, -, -, hstep⟩
      · exact ih hsame
      · obtain ⟨c', hc', hjob⟩ := ih (o := o.step desk move)
          (c := ⟨c.job, c.journal ++ [⟨query, (o.answer query now name).1⟩],
            next (o.answer query now name).1⟩) (by
            rw [hstep]
            exact List.getElem?_set_self (List.getElem?_eq_some_iff.1 hc).1)
        exact ⟨c', hc', hjob⟩

/-- The document of a client is known from when it came. -/
theorem document?_run (desk : Desk) (hc : o.clients[i]? = some c) (moves : List Move) :
    (o.run desk moves).document? i = c.job.document? := by
  obtain ⟨c', hc', hjob⟩ := job_run desk hc moves
  rw [document?, hc', ← hjob]
  rfl

/-! ## Before and after -/

/-- Of two that committed, the second found the first among the callers. -/
theorem exists_of_sublist_callers (h : [i, j] <+ o.callers desk moves) :
    ∃ before move after, moves = before ++ move :: after ∧
      (o.run desk before).caller? move = some j ∧ i ∈ o.callers desk before := by
  induction moves using List.reverseRecOn with
  | nil => cases h
  | append_singleton moves move ih =>
      rw [callers_concat] at h
      have hearlier : [i, j] <+ o.callers desk moves → ∃ before move' after,
          moves ++ [move] = before ++ move' :: after ∧
          (o.run desk before).caller? move' = some j ∧ i ∈ o.callers desk before := by
        intro h
        obtain ⟨before, move', after, rfl, hcaller, hm⟩ := ih h
        exact ⟨before, move', after ++ [move], List.append_assoc .., hcaller, hm⟩
      cases hcaller : (o.run desk moves).caller? move with
      | none =>
          rw [hcaller, Option.toList_none, List.append_nil] at h
          exact hearlier h
      | some k =>
          rw [hcaller] at h
          obtain ⟨first, second, hsplit, hfirst, hsecond⟩ := List.sublist_append_iff.1 h
          rcases List.sublist_singleton.1 hsecond with rfl | rfl
          · rw [List.append_nil] at hsplit
            exact hearlier (hsplit ▸ hfirst)
          · obtain ⟨rfl, hj⟩ := List.append_inj' (show [i] ++ [j] = _ from hsplit) rfl
            cases hj
            exact ⟨moves, move, [], rfl, hcaller, List.singleton_sublist.1 hfirst⟩

/-- Who commits before another has its event before the other's, unless it still owed the
event when the other committed. -/
theorem logged_in_turn (hlog : s.log.events = []) (h : [i, j] <+ (opening s).callers desk moves)
    (hj : j ∈ (opening s).loggers desk moves) :
    [i, j] <+ (opening s).loggers desk moves ∨
      ∃ before move after c, moves = before ++ move :: after ∧
        ((opening s).run desk before).caller? move = some j ∧
        ((opening s).run desk before).clients[i]? = some c ∧ c.owes = true := by
  obtain ⟨before, move, after, rfl, hcaller, hi⟩ := exists_of_sublist_callers h
  have hbooked := Booked.run desk hlog before
  obtain ⟨changes, c, hc, hcall, hm⟩ := (hbooked.committed i).1 hi
  cases howes : c.owes with
  | true => exact Or.inr ⟨before, move, after, c, rfl, hcaller, hc, howes⟩
  | false =>
      -- The first has logged by then, and the second, which is only about to commit,
      -- has not.
      have hi' : i ∈ (opening s).loggers desk before := by
        obtain ⟨notice, hm'⟩ :=
          (hbooked.traces c (List.mem_of_getElem? hc)).exists_log hcall howes hm
        exact (hbooked.logged i).2 ⟨notice, c, hc, hcall, hm'⟩
      have hj' : j ∉ (opening s).loggers desk before := by
        obtain ⟨c', changes', next, now, name, -, hc', -, hp, -⟩ :=
          @of_caller? desk _ j move hcaller
        have hidle := (hbooked.traces c' (List.mem_of_getElem? hc')).of_commit hp
        intro hm'
        obtain ⟨notice, c'', hc'', -, hlogged⟩ := (hbooked.logged j).1 hm'
        rw [hc'] at hc''
        cases hc''
        exact (Client.not_mem_of_isIdle hidle).2 notice hlogged
      rw [loggers_append] at hj ⊢
      have hafter := (List.mem_append.1 hj).resolve_left hj'
      exact Or.inl ((List.singleton_sublist.2 hi').append (List.singleton_sublist.2 hafter))

end Office

/-- The events of a document are in the order in which its calls have committed. -/
def InCommitOrder (desk : Desk) (s : System) (moves : List Move) (id : String) : Prop :=
  (((Office.opening s).run desk moves).system.log.events.map Event.toNotice).filter
      (fun notice => notice.handle = id) =
    (((Office.opening s).callers desk moves).filterMap
      ((Office.opening s).run desk moves).notice?).filter fun notice => notice.handle = id

instance (desk : Desk) (s : System) (moves : List Move) (id : String) :
    Decidable (InCommitOrder desk s moves id) :=
  inferInstanceAs (Decidable (_ = _))

/-- Cy's version is committed first. Then Bob commits his, which he had to take again, and
logs it before Cy gets round to it. -/
theorem events_out_of_order :
    let call (user : String) (call : Call) : Move := .enter (.call "a" user call)
    let step (client : Nat) : Move := .advance client .epoch ""
    let moves : List Move :=
      [.enter (.create none .unpublished .null "ann"), .advance 0 .epoch "a",
        .advance 0 .epoch "v", step 0, step 0, call "bob" .version, call "cy" .version, step 1,
        step 2, step 1, step 2, step 1, step 2, step 2] ++ List.replicate 7 (step 1) ++
      [step 2, step 2]
    let o := (Office.opening {}).run {} moves
    (∀ c ∈ o.clients, c.owes = false) ∧
      o.system.log.events.map (fun event => (event.handle, event.user)) =
        [("a", "bob"), ("a", "cy")] ∧
      ¬ InCommitOrder {} {} moves "a" := by
  decide +kernel

/-- How far the events are in the order of the commits. -/
structure EventsInOrder (desk : Desk) (s : System) (moves : List Move) : Prop where
  /-- The events are in the order in which the clients logged them. -/
  told : List.Forall₂ (fun i event => ∃ c,
      ((Office.opening s).run desk moves).clients[i]? = some c ∧ c.Reports desk event)
    ((Office.opening s).loggers desk moves)
    ((Office.opening s).run desk moves).system.log.events
  once : ((Office.opening s).callers desk moves).Nodup ∧
    ((Office.opening s).loggers desk moves).Nodup
  /-- Only those log that have committed a call. -/
  committed : (Office.opening s).loggers desk moves ⊆ (Office.opening s).callers desk moves
  /-- Who logs before somebody else who committed first has overtaken the other between the
  commit and the event. -/
  overtaken : ∀ i j, [i, j] <+ (Office.opening s).callers desk moves →
    j ∈ (Office.opening s).loggers desk moves →
    ¬ [i, j] <+ (Office.opening s).loggers desk moves →
    ∃ before move after c, moves = before ++ move :: after ∧
      ((Office.opening s).run desk before).caller? move = some j ∧
      ((Office.opening s).run desk before).clients[i]? = some c ∧ c.owes = true
  /-- Where nobody is overtaken on a document, its events are in the order of its commits. -/
  inOrder : ∀ id, (∀ before move after, moves = before ++ move :: after →
      ¬ ((Office.opening s).run desk before).Overtakes id move) →
    InCommitOrder desk s moves id
  /-- A channel hands events out in the order of the log. -/
  handed : ∀ channel events log,
    ((Office.opening s).run desk moves).system.log.poll channel = .ok (events, log) →
    events <+ ((Office.opening s).run desk moves).system.log.events

namespace Office

/-- Two lists of the same elements, without repetition, are the same if the order in one is
that in the other. -/
theorem eq_of_sublist {l l' : List Nat} (hl : l.Nodup) (hl' : l'.Nodup)
    (hmem : ∀ i, i ∈ l ↔ i ∈ l') (horder : ∀ i j, [i, j] <+ l → [i, j] <+ l') : l = l' := by
  have hplaces : l'.Pairwise fun i j => l'.idxOf i < l'.idxOf j := by
    refine List.pairwise_iff_getElem.2 fun i j hi hj hlt => ?_
    rwa [hl'.idxOf_getElem, hl'.idxOf_getElem]
  have hperm := (List.perm_ext_iff_of_nodup hl hl').2 hmem
  refine hperm.eq_of_pairwise (fun i j _ _ hij hji => absurd hij hji.not_gt) ?_ hplaces
  exact List.pairwise_iff_forall_sublist.2 fun hij =>
    List.pairwise_iff_forall_sublist.1 hplaces (horder _ _ hij)

variable {desk : Desk} {s : System} {o : Office} {i j : Nat} {moves : List Move}
  {callers authors : List Nat}

/-- What stands in the log, told by those who logged it. -/
theorem Booked.notices (h : o.Booked desk callers authors) :
    o.system.log.events.map Event.toNotice = authors.filterMap o.notice? := by
  have htold := h.told.imp fun i event hcalled => h.reports hcalled
  clear h
  generalize o.system.log.events = events at htold
  induction htold with
  | nil => rfl
  | @cons i event authors events hfirst hrest ih =>
      obtain ⟨c, hc, hreport, -⟩ := hfirst
      have hnotice : o.notice? i = some event.toNotice := by
        rw [notice?, hc]
        exact hreport.notice?.1
      rw [List.map_cons, List.filterMap_cons_some hnotice, ih]

/-- What client number `i` logged of the document `id`. -/
def noticeOf? (o : Office) (id : String) (i : Nat) : Option Notice :=
  (o.notice? i).filter fun notice => notice.handle = id

/-- A client that has committed a call and logged something of a document is one of those who
logged, and its call was about the document. -/
theorem Booked.of_noticeOf? (h : o.Booked desk callers authors) {id : String} (hi : i ∈ callers)
    (habout : (o.noticeOf? id i).isSome) : i ∈ authors ∧ o.document? i = some id := by
  obtain ⟨notice, habout⟩ := Option.isSome_iff_exists.1 habout
  obtain ⟨hnotice, hhandle⟩ := Option.filter_eq_some_iff.1 habout
  obtain ⟨changes, c, hc, hcall, -⟩ := (h.committed i).1 hi
  rw [notice?, hc] at hnotice
  obtain ⟨⟨query, answer⟩, hm, hlogged⟩ := List.exists_of_findSome?_eq_some hnotice
  have hauthor : i ∈ authors := by
    cases query with
    | log notice' => exact (h.logged i).2 ⟨notice', c, hc, hcall, hm⟩
    | now | fresh kind | load id | find location | folder category container | commit changes
    | pause milliseconds => cases hlogged
  refine ⟨hauthor, ?_⟩
  obtain ⟨notice', hlogged⟩ := (h.logged i).1 hauthor
  have hcalled : o.Called i ⟨.log (⟨notice', 0⟩ : Event).toNotice, ()⟩ := hlogged
  obtain ⟨c', hc', hreport, -⟩ := h.reports hcalled
  obtain ⟨hnotice', hdocument⟩ := hreport.notice?
  rw [hc] at hc'
  cases hc'
  rw [document?, hc]
  rw [show notice = notice' from Option.some.inj (hnotice.symm.trans hnotice')] at hhandle
  exact hdocument.trans (congrArg some (of_decide_eq_true hhandle))

variable {id : String}

/-- Where nobody is overtaken on a document, two that commit on it log in the same order. -/
theorem logged_in_turn_of_nobody (hlog : s.log.events = [])
    (hnobody : ∀ before move after, moves = before ++ move :: after →
      ¬ ((opening s).run desk before).Overtakes id move)
    (hij : [i, j] <+ (opening s).callers desk moves)
    (hi : ((opening s).run desk moves).document? i = some id)
    (hj : ((opening s).run desk moves).document? j = some id)
    (hlogged : j ∈ (opening s).loggers desk moves) :
    [i, j] <+ (opening s).loggers desk moves := by
  refine (logged_in_turn hlog hij hlogged).resolve_right ?_
  rintro ⟨before, move, after, c, hmoves, hcaller, hc, howes⟩
  obtain ⟨c', changes, next, now, name, -, hc', -⟩ := @of_caller? desk _ j move hcaller
  have hrun : ∀ {i c}, ((opening s).run desk before).clients[i]? = some c →
      ((opening s).run desk moves).document? i = c.job.document? := by
    intro i c hc
    rw [hmoves, run_append]
    exact document?_run desk hc (move :: after)
  refine hnobody before move after hmoves ⟨i, j, c, hcaller, ?_, hc, (hrun hc).symm.trans hi, howes⟩
  rw [document?, hc']
  exact (hrun hc').symm.trans hj

/-- Where nobody is overtaken on a document, its events are in the order of its commits. -/
theorem inCommitOrder (hlog : s.log.events = [])
    (hnobody : ∀ before move after, moves = before ++ move :: after →
      ¬ ((opening s).run desk before).Overtakes id move) :
    InCommitOrder desk s moves id := by
  have h := Booked.run desk hlog moves
  let about := ((opening s).run desk moves).noticeOf? id
  have hsame : (((opening s).callers desk moves).filter fun i => (about i).isSome) =
      ((opening s).loggers desk moves).filter fun i => (about i).isSome := by
    refine eq_of_sublist (h.once.filter _) (h.onceLogged.filter _) (fun i => ?_)
      fun i j hij => ?_
    · simp only [List.mem_filter]
      exact ⟨fun ⟨hi, habout⟩ => ⟨(h.of_noticeOf? hi habout).1, habout⟩,
        fun ⟨hi, habout⟩ => ⟨h.authors_subset hi, habout⟩⟩
    · have hcallers := hij.trans List.filter_sublist
      obtain ⟨hi, hiabout⟩ := List.mem_filter.1 (hij.subset (List.mem_cons_self ..))
      obtain ⟨hj, hjabout⟩ := List.mem_filter.1 (hij.subset (show j ∈ [i, j] by simp))
      obtain ⟨-, hidocument⟩ := h.of_noticeOf? hi hiabout
      obtain ⟨hjlogged, hjdocument⟩ := h.of_noticeOf? hj hjabout
      have hkept := (logged_in_turn_of_nobody hlog hnobody hcallers hidocument hjdocument
        hjlogged).filter fun i => (about i).isSome
      rwa [List.filter_eq_self.2 (by simp [hiabout, hjabout])] at hkept
  have hkeep : ∀ l : List Nat, (l.filter fun i => (about i).isSome).filterMap about =
      l.filterMap about := by
    intro l
    rw [List.filterMap_filter]
    refine congrFun (congrArg List.filterMap (funext fun i => ?_)) l
    cases about i <;> rfl
  rw [InCommitOrder, h.notices, List.filter_filterMap, List.filter_filterMap]
  exact (hkeep _).symm.trans ((congrArg _ hsame.symm).trans (hkeep _))

end Office

/-- Whatever the clients do in whatever order, the events are in the log as they were
logged, and in the order of the commits as far as nobody was overtaken. -/
theorem events_in_log_order (desk : Desk) (s : System) (hlog : s.log.events = [])
    (moves : List Move) : EventsInOrder desk s moves := by
  have h := Office.Booked.run desk hlog moves
  refine ⟨?_, ⟨h.once, h.onceLogged⟩, h.authors_subset, fun i j hij hj hnot =>
    (Office.logged_in_turn hlog hij hj).resolve_left hnot,
    fun id hnobody => Office.inCommitOrder hlog hnobody, fun channel events log hpoll => ?_⟩
  · refine h.told.imp fun i event hcalled => ?_
    obtain ⟨c, hc, hreport, -⟩ := h.reports hcalled
    exact ⟨c, hc, hreport⟩
  · unfold EventLog.poll at hpoll
    split at hpoll
    · cases hpoll
    · cases hpoll
      exact List.filter_sublist

/-- Cy has to take his version again, as Bob commits first, and nobody is overtaken. -/
theorem events_in_log_order_versions :
    let call (user : String) : Move := .enter (.call "a" user .version)
    let step (client : Nat) : Move := .advance client .epoch ""
    let moves : List Move :=
      [.enter (.create none .unpublished .null "ann"), .advance 0 .epoch "a",
        .advance 0 .epoch "v", step 0, step 0, call "bob", call "cy", step 2, step 2] ++
      List.replicate 6 (step 1) ++ List.replicate 8 (step 2)
    let o := (Office.opening {}).run {} moves
    o.system.log.events.map (fun event => event.user) = ["bob", "cy"] ∧
      InCommitOrder {} {} moves "a" ∧ EventsInOrder {} {} moves := by
  intro call step moves o
  have hrun : o.system.log.events.map (fun event => event.user) = ["bob", "cy"] ∧
      InCommitOrder {} {} moves "a" := by decide +kernel
  exact ⟨hrun.1, hrun.2, events_in_log_order {} {} rfl moves⟩

end Editorial
