import Editorial.Proofs.Desk.Contents
import Editorial.Proofs.Desk.Returning
import Editorial.Proofs.Office.Order

/-!
# Replies come from the store

A client that was answered has made one commit, and what it was answered is a view of
what that commit put in. It does not matter how often the call was tried before, or
what others did in between: the reply belongs to the attempt that won, whose records
were the stored ones. As long as nobody commits afterwards, the store still has what
the reply shows.

A table keeps what it is given, but it hands it out as it reads it. So the document in
a reply may have doubles in its content that are different ones when the document is
loaded; a content without doubles is the same. And it hands out nothing that is nested too
deep for its reader.

## Main results

* `Office.exists_answered` — a reply was in the store as the commit of its call left it.
* `replies_stored` — what a client was answered is stored, and the event refers to it.
* `updated_draft_drifts` — a reply whose content is not what a table hands out.
-/

namespace Editorial

/-! ## Replies as they are handed out -/

/-- The reply with its content as the backend hands it out. -/
def Reply.readBy (b : Backend) : Reply → Reply
  | .document d => .document { d with content := b.readsContent d.content }
  | reply => reply

theorem Reply.readBy_eq {b : Backend} {reply : Reply} (h : b = .whole ∨
      ∀ d, reply = .document d → d.content.json.noDoubles = true) :
    reply.readBy b = reply := by
  cases reply with
  | document d =>
      have hsame : b.readsContent d.content = d.content := by
        cases b with
        | whole => rfl
        | stepwise => exact Payload.reread_of_noDoubles ((h.resolve_left nofun) d rfl)
      exact congrArg (fun content => Reply.document { d with content := content }) hsame
  | done | request id | versions catalogue | hints hints => rfl

/-- The record that is stored as `id`, if the backend can hand it out. -/
def Backend.readable? (b : Backend) (s : Store) (id : String) : Option Stored :=
  (s.get? id).filter fun stored => b.canRead stored.record

theorem Backend.readable?_eq_some_iff {b : Backend} {s : Store} {id : String} {stored : Stored} :
    b.readable? s id = some stored ↔ s.get? id = some stored ∧ b.canRead stored.record = true :=
  Option.filter_eq_some_iff

/-- What is stored is handed out with its contents as the backend reads them. -/
theorem Call.Answered.load {b : Backend} {id : String} {s : Store} {call : Call} {reply : Reply}
    (h : call.Answered id (b.readable? s) reply) :
    call.Answered id (b.loaded? s) (reply.readBy b) := by
  have hload : ∀ {id stored}, b.readable? s id = some stored →
      b.loaded? s id = some (b.handsOut stored) := by
    intro id stored hreadable
    obtain ⟨hget, hreads⟩ := Backend.readable?_eq_some_iff.1 hreadable
    exact Backend.loaded?_of_canRead hget hreads
  cases h with
  | done hform => exact .done hform
  | @variant _ target stored v hreturns hstored hv =>
      have hread : (b.handsOut stored).record.variants.get target.stage = some (b.readsBack v) := by
        rw [b.get_handsOut, hv, Option.map_some]
      have hview : Reply.readBy b (.document (.ofVariant target.handle v)) =
          .document (.ofVariant target.handle (b.readsBack v)) := by cases b <;> rfl
      rw [hview]
      exact .variant hreturns (hload hstored) hread
  | @snapshot stored sn hstored hlast =>
      have hread : (b.handsOut stored).record.history.getLast? = some (b.readsSnapshot sn) := by
        rw [b.history_handsOut, List.getLast?_map, hlast, Option.map_some]
      exact .snapshot (hload hstored) hread
  | request hform hstored hq =>
      exact .request hform (hload hstored) ((b.pending?_handsOut _).trans hq)

/-- The store has what the reply to the call shows. The backend hands it out as it reads it,
and that is the same in memory, and in a table unless there are doubles in it. A table hands
it out only if the content that came with the call, if one did, is not nested deeper than
`Payload.depthLimit`. -/
structure Call.AnsweredFrom (b : Backend) (s : Store) (id : String) (call : Call)
    (reply : Reply) : Prop where
  stored : call.Answered id s.get? reply
  read : call.isReadable b = true → call.Answered id (b.loaded? s) (reply.readBy b)
  loaded : call.isReadable b = true →
    b = .whole ∨ (∀ d, reply = .document d → d.content.json.noDoubles = true) →
      call.Answered id (b.loaded? s) reply

namespace Office

variable {desk : Desk} {o : Office} {s : System} {i : Nat} {id user : String} {call : Call}
  {reply : Reply} {moves : List Move}

/-- What a call has committed can be handed out, if the content that came with the call can. -/
theorem Current.canRead_of_prepares (h : o.Current desk) {op : Operation} {arguments : Arguments}
    {path : List Taken} {changes : List Change} {t : Transaction}
    (hp : desk.Prepares id user op arguments path changes t) (hasks : call.Asks op arguments)
    (htold : ∀ step ∈ path, o.Tells step)
    (hexpected : ∀ change ∈ changes, o.system.store.revision? change.id = change.expected?)
    (hreadable : call.isReadable o.system.backend = true) :
    ∀ change ∈ changes, change.Leaves fun r => o.system.backend.canRead r = true := by
  have hloads : ∀ step ∈ path, step.Loads
      (Record.AllContents fun p => o.system.backend.canReadContent p = true) := by
    rintro ⟨query, answer⟩ hm
    cases query with
    | load target =>
        rintro loaded rfl
        obtain ⟨stored, -, hout⟩ :=
          Backend.load_eq_some_iff.1 (h.load_of_prepares hp htold hexpected hm)
        obtain ⟨hreads, rfl⟩ := Backend.handOut?_eq_ok_iff.1 hout
        exact Backend.canRead_iff.1 (Backend.canRead_handsOut hreads)
    | now | fresh kind | find location | folder category container | commit changes
    | pause milliseconds | log notice => trivial
  intro change hm
  have hleaves := hp.leaves_allContents
    (fun _ => Call.canReadContent_of_asks hreadable hasks) hloads change hm
  cases change with
  | put record expected => exact Backend.canRead_iff.2 hleaves
  | delete id expected => trivial

/-- A reply was in the store as the commit of its call left it, and in a record that can be
handed out if the content that came with the call can. -/
theorem exists_answered (htable : desk.table = .standard) (hfiled : s.store.Filed)
    (hcall : call.isReadOnly = false)
    (hjob : ((opening s).run desk moves).clients[i]?.map Client.job = some (.call id user call))
    (hended : ((opening s).run desk moves).ended? i = some (some (.ok (.reply reply)))) :
    ∃ before move after, moves = before ++ move :: after ∧
      ((opening s).run desk before).caller? move = some i ∧
      let store := (((opening s).run desk before).step desk move).system.store
      call.Answered id store.get? reply ∧ (call.isReadable s.backend = true →
        call.Answered id (s.backend.readable? store) reply) := by
  obtain ⟨c, hc, hp⟩ := of_ended? hended
  have hcjob : c.job = .call id user call := by
    rw [hc] at hjob
    exact Option.some.inj hjob
  have hl := ((current_run htable hfiled moves).traces c (List.mem_of_getElem? hc)).reaches hp
  rw [hcjob] at hl
  obtain ⟨op, arguments, t, hasks, hconcludes, idle, last, changes, now, hjournal, -, hprepares⟩ :=
    Desk.settles_of_leads htable hcall hl
  rw [← List.append_assoc] at hjournal
  obtain ⟨before, moment, name, after, c₀, next, rfl, hc₀, hhead, hask, hstep, hanswer⟩ :=
    exists_moment hc hjournal
  have hcurrent := current_run htable hfiled before
  have hbackend : ((opening s).run desk before).system.backend = s.backend :=
    backend_run desk (opening s) before
  refine ⟨before, .advance i moment name, after, rfl, ?_⟩
  rw [hstep]
  obtain ⟨c', hc', hsame⟩ := job_run desk hc₀ (.advance i moment name :: after)
  rw [← run_append, hc] at hc'
  cases hc'
  generalize (opening s).run desk before = o₀ at hc₀ hanswer hcurrent hbackend
  have hcommit : (o₀.system.backend.commit o₀.system.store changes).1 = .committed :=
    (Except.ok.inj hanswer).symm
  have hdistinct := hcurrent.nodup_committing htable hc₀ hask
  have hmade : o₀.system.store.Made changes
      (o₀.take i c₀ (.commit changes) next moment name).system.store :=
    (Store.made_iff hdistinct).2 (Backend.commit_of_committed hcommit)
  have htold : ∀ step ∈ last, o₀.Tells step := fun step hm =>
    ⟨c₀, List.mem_of_getElem? hc₀, by rw [hhead]; exact List.mem_append_right _ hm⟩
  have hids : ∀ target loaded, .load target (some loaded) ∈ last → loaded.record.id = target :=
    fun target loaded hm => (hcurrent.loaded target loaded (htold _ hm)).2.1
  have hform := Desk.form_of_leads hl
  refine ⟨caller?_of_commit hc₀ hask (by rw [← hsame, hcjob]; rfl) hcommit,
    hprepares.answered hids hmade.replaced hcall hasks hform hconcludes, fun hreadable => ?_⟩
  rw [← hbackend] at hreadable ⊢
  have hreads := hcurrent.canRead_of_prepares hprepares hasks htold
    (Store.expected_of_commit _ hdistinct hcommit) hreadable
  refine hprepares.answered hids (fun record revision hm => ?_) hcall hasks hform hconcludes
  exact Backend.readable?_eq_some_iff.2 ⟨hmade.replaced record revision hm, hreads _ hm⟩

/-- Whose commit is among the moves is one of the callers. -/
theorem mem_callers {before after : List Move} {move : Move}
    (hcaller : (o.run desk before).caller? move = some i) :
    i ∈ o.callers desk (before ++ move :: after) := by
  induction before generalizing o with
  | nil =>
      change o.caller? move = some i at hcaller
      show i ∈ (o.caller? move).toList ++ _
      rw [hcaller]
      exact List.mem_cons_self ..
  | cons first before ih => exact List.mem_append_right _ (ih hcaller)

/-- A client that has committed a call makes no other commit. -/
theorem committing?_of_caller (hlog : s.log.events = [])
    (hcaller : i ∈ (opening s).callers desk moves) (now : Instant) (name : String) :
    ((opening s).run desk moves).committing? (.advance i now name) = none := by
  have hbooked := Booked.run desk hlog moves
  obtain ⟨changes, c, hc, -, hm⟩ := (hbooked.committed i).1 hcaller
  refine Option.eq_none_iff_forall_ne_some.2 fun c' hcommits => ?_
  obtain ⟨j, changes', next, now', name', hmove, hc', hp, -⟩ :=
    @take_of_committing? desk _ c' _ hcommits
  cases hmove
  cases hc.symm.trans hc'
  have hidle := (hbooked.traces c (List.mem_of_getElem? hc)).of_commit hp
  exact (Client.not_mem_of_isIdle hidle).1 changes hm

/-- After the commit of a call the records stay as they are while nobody else commits. -/
theorem store_run_of_quiet (hlog : s.log.events = []) {before during : List Move} {move : Move}
    (hcaller : ((opening s).run desk before).caller? move = some i)
    (hquiet : ¬ (((opening s).run desk before).step desk move).OthersCommit desk i during) :
    ((opening s).run desk (before ++ move :: during)).system.store =
      (((opening s).run desk before).step desk move).system.store := by
  have hrun : ∀ during, (((opening s).run desk before).step desk move).run desk during =
      (opening s).run desk (before ++ move :: during) := fun during =>
    (run_append desk (opening s) before (move :: during)).symm
  induction during using List.reverseRecOn with
  | nil => rw [run_concat]
  | append_singleton during last ih =>
      rw [← ih fun hothers => hquiet (hothers.append _), ← hrun, ← hrun, run_concat]
      refine (sameData_of_not_othersCommit hquiet fun now name hlast => ?_).store
      rw [hrun, hlast]
      exact committing?_of_caller hlog (mem_callers hcaller) now name

/-- The event of a call that has committed is in the log when the call has ended. -/
theorem exists_event (hlog : s.log.events = []) {c : Client}
    {result : Option (Except Failure Product)}
    (hc : ((opening s).run desk moves).clients[i]? = some c) (hp : c.process = Process.ended result)
    (hcaller : i ∈ (opening s).callers desk moves) :
    ∃ event ∈ ((opening s).run desk moves).system.log.events, c.Reports desk event := by
  have hbooked := Booked.run desk hlog moves
  obtain ⟨changes, c', hc', hcall, hm⟩ := (hbooked.committed i).1 hcaller
  cases hc.symm.trans hc'
  have htraces := hbooked.traces c (List.mem_of_getElem? hc)
  obtain ⟨notice, hlogged⟩ := htraces.exists_log_of_ended hcall hp hm
  have hreports : ∀ sequence, c.Reports desk ⟨notice, sequence⟩ := fun sequence =>
    (@Client.Traces.reports desk c htraces ⟨notice, sequence⟩ hlogged).1
  have hnotice : ((opening s).run desk moves).notice? i = some notice := by
    rw [notice?, hc]
    exact (hreports 0).notice?.1
  have hnoted : notice ∈ ((opening s).run desk moves).system.log.events.map Event.toNotice := by
    rw [hbooked.notices]
    exact List.mem_filterMap.2 ⟨i, (hbooked.logged i).2 ⟨notice, c, hc, hcall, hlogged⟩, hnotice⟩
  obtain ⟨event, hevent, rfl⟩ := List.mem_map.1 hnoted
  exact ⟨event, hevent, hreports event.sequence⟩

end Office

/-! ## What was answered -/

/-- What client number `i` was answered, after the moves that lead to it from the system
`s`: its call about the document `id` was answered with `reply`. -/
structure ReplyStored (desk : Desk) (s : System) (moves : List Move) (i : Nat) (id : String)
    (call : Call) (reply : Reply) : Prop where
  /-- The call has committed, and from then on the store has what the reply shows, until
  somebody else commits. -/
  stored : ∃ before move after, moves = before ++ move :: after ∧
    let o := (Office.opening s).run desk before
    o.caller? move = some i ∧ ∀ during rest, after = during ++ rest →
      ¬ (o.step desk move).OthersCommit desk i during →
      call.AnsweredFrom s.backend
        ((Office.opening s).run desk (before ++ move :: during)).system.store id reply
  /-- The event of the call refers to the document that was answered, if one was. -/
  logged : ∃ event ∈ ((Office.opening s).run desk moves).system.log.events,
    (∃ c, ((Office.opening s).run desk moves).clients[i]? = some c ∧ c.Reports desk event) ∧
      event.result = reply.document?.map Document.reference

/-- In every run of an office that begins with records under their ids and an empty log,
whatever the clock, the backend and the settings, and however often a call was tried: what a
client was answered whose call may change something is what its commit stored, and the
event refers to that. -/
theorem replies_stored (desk : Desk) (htable : desk.table = .standard) (s : System)
    (hfiled : s.store.Filed) (hlog : s.log.events = []) (moves : List Move) (i : Nat)
    (id user : String) (call : Call) (hcall : call.isReadOnly = false) (reply : Reply)
    (hjob : ((Office.opening s).run desk moves).clients[i]?.map Client.job =
      some (.call id user call))
    (hended : ((Office.opening s).run desk moves).ended? i = some (some (.ok (.reply reply)))) :
    ReplyStored desk s moves i id call reply := by
  obtain ⟨before, move, after, hmoves, hcaller, hanswered⟩ :=
    Office.exists_answered htable hfiled hcall hjob hended
  refine ⟨⟨before, move, after, hmoves, hcaller, fun during rest _ hquiet => ?_⟩, ?_⟩
  · rw [Office.store_run_of_quiet hlog hcaller hquiet]
    obtain ⟨hstored, hreadable⟩ := hanswered
    refine ⟨hstored, fun hcontent => (hreadable hcontent).load, fun hcontent hsame => ?_⟩
    have hloaded := (hreadable hcontent).load
    rwa [Reply.readBy_eq hsame] at hloaded
  · obtain ⟨c, hc, hp⟩ := Office.of_ended? hended
    obtain ⟨event, hevent, hreports⟩ := Office.exists_event hlog hc hp
      (hmoves ▸ Office.mem_callers hcaller)
    obtain ⟨reply', hp', hresult⟩ := (hreports.announces htable).answered
    cases hp.symm.trans hp'
    exact ⟨event, hevent, ⟨c, hc, hreports⟩, hresult⟩

/-- Bob's draft is written only when his call is tried again, as Cy has taken a version. -/
theorem replies_stored_update :
    let content : Payload := .ofJson (.string "text")
    let write : Job := .call "a" "bob" (.update content)
    let reply : Reply := .document ⟨"a", some "w", .draft, content, none⟩
    let step (client : Nat) : Move := .advance client .epoch ""
    let moves : List Move :=
      [.enter (.create none .unpublished .null "ann"), .advance 0 .epoch "a",
        .advance 0 .epoch "v", step 0, step 0, .enter (.call "a" "bob" .obtain), step 1, step 1,
        step 1, .advance 1 .epoch "w", step 1, step 1, step 1, .enter write,
        .enter (.call "a" "cy" .version), step 2, step 2] ++
        List.replicate 6 (step 3) ++ List.replicate 8 (step 2)
    let o := (Office.opening {}).run {} moves
    (Store.Filed .empty ∧ o.clients[2]?.map Client.job = some write ∧
        o.ended? 2 = some (some (.ok (.reply reply))) ∧
        o.clients[2]?.map (fun c => c.journal.countP Taken.isPause) = some 1) ∧
      ReplyStored {} {} moves 2 "a" (.update content) reply := by
  intro content write reply step moves o
  have hfiled : Store.Filed .empty := Store.filed_of_empty rfl
  have hjob : o.clients[2]?.map Client.job = some write := by decide +kernel
  have hended : o.ended? 2 = some (some (.ok (.reply reply))) := by decide +kernel
  have hpause : o.clients[2]?.map (fun c => c.journal.countP Taken.isPause) = some 1 := by
    decide +kernel
  exact ⟨⟨hfiled, hjob, hended, hpause⟩,
    replies_stored {} rfl {} hfiled rfl moves 2 "a" "bob" (.update content) rfl reply hjob hended⟩

/-- A table hands out another content than the one that Bob is told he has written. -/
theorem updated_draft_drifts :
    let content (bits : UInt64) : Payload := .ofJson (.double ⟨bits⟩)
    let step (client : Nat) : Move := .advance client .epoch ""
    let moves : List Move :=
      [.enter (.create none .unpublished .null "ann"), .advance 0 .epoch "a",
        .advance 0 .epoch "v", step 0, step 0, .enter (.call "a" "bob" .obtain), step 1, step 1,
        step 1, .advance 1 .epoch "w", step 1, step 1, step 1] ++
        (.enter (.call "a" "bob" (.update (content 4259304194031319138))) ::
          List.replicate 6 (step 2))
    let o := (Office.opening { backend := .stepwise }).run {} moves
    let answered? : Option Document :=
      match o.ended? 2 with
      | some (some (.ok (.reply reply))) => reply.document?
      | _ => none
    let loaded? : Option Document := do
      let stored ← o.system.backend.loaded? o.system.store "a"
      return .ofVariant "a" (← stored.record.variants.get .draft)
    answered? = some ⟨"a", some "w", .draft, content 4259304194031319138, none⟩ ∧
      loaded? = some ⟨"a", some "w", .draft, content 4259304194031319137, none⟩ := by
  decide +kernel

end Editorial
