import Editorial.Proofs.Office.Serial
import Editorial.Proofs.Store.Exact

/-!
# What a commit makes of a stored document

A client prepares its commit from records that it loaded some time ago, but a commit
that goes through was prepared from the records as they are. So what it makes of the
document `id` can be told from the store just before it, and there is not much it can
be: the document is made, it is removed or changed by an operation on itself, a version
of another document is written into it, or it is left alone.

A document that was removed does not come back, as its id was in use and nobody is given
a name that was.

## Main results

* `Current.commitsCall` — what a call does that commits.
* `Current.affects` — what a move that commits makes of a document.
* `Current.forall_get?_run` — what commits keep of a document, a run keeps of it.
-/

namespace Editorial

/-- By the call `call`, `user` carries out `op` on the document `id` as it is, which is
`stored`; that leaves the record `r` and the transaction `t`. -/
inductive CarriesOut (desk : Desk) (s : System) (id user : String) (call : Call)
    (stored : Stored) (op : Operation) : Arguments → Record → Transaction → Prop
  | intro {arguments : Arguments} {path : List Taken} {r : Record} {t : Transaction}
      (hget : s.store.get? id = some stored) (hasks : call.Asks op arguments)
      (hallows : (Hints.ofHandle ⟨(s.backend.handsOut stored).record,
        (s.backend.handsOut stored).revision, user⟩).allows op arguments.request = true)
      (heffect : Effect ⟨arguments, desk.settings.folderCategory⟩
        ⟨(s.backend.handsOut stored).record, (s.backend.handsOut stored).revision, user⟩ op path
        r t)
      (hloads : ∀ target loaded, .load target (some loaded) ∈ path →
        s.backend.load s.store target = .ok (some loaded)) :
      CarriesOut desk s id user call stored op arguments r t

namespace CarriesOut

variable {desk : Desk} {s : System} {id user : String} {call : Call} {stored : Stored}
  {op : Operation} {arguments : Arguments} {r : Record} {t : Transaction}

theorem get?_eq (h : CarriesOut desk s id user call stored op arguments r t) :
    s.store.get? id = some stored := by
  cases h with
  | intro hget => exact hget

theorem asks (h : CarriesOut desk s id user call stored op arguments r t) :
    call.Asks op arguments := by
  cases h with
  | intro _ hasks => exact hasks

end CarriesOut

/-- The changes that commit what an operation leaves of the document `own`, which is
`stored`. -/
def Stored.closing (own : String) (stored : Stored) (r : Record) (t : Transaction) :
    List Change :=
  (if t.deletes then .delete own stored.revision else .put r (some stored.revision)) :: t.staged

theorem Stored.map_id_closing {own : String} {r : Record} (hid : r.id = own) (stored : Stored)
    (t : Transaction) :
    (stored.closing own r t).map Change.id = own :: t.staged.map Change.id := by
  unfold closing
  cases t.deletes with
  | true => rfl
  | false => exact congrArg (· :: t.staged.map Change.id) hid

/-- What is left of the document itself. -/
theorem Store.Made.get?_closing {s after : Store} {own : String} {stored : Stored} {r : Record}
    {t : Transaction} (h : s.Made (stored.closing own r t) after) (hid : r.id = own) :
    after.get? own = if t.deletes then none else some ⟨r, stored.revision + 1⟩ := by
  unfold Stored.closing at h
  cases hdeletes : t.deletes with
  | true =>
      rw [hdeletes] at h
      exact h.deleted own stored.revision (List.mem_cons_self ..)
  | false =>
      rw [hdeletes] at h
      have hput := h.replaced r stored.revision (List.mem_cons_self ..)
      rwa [hid] at hput

/-- The client `c` commits a call, told from the system `s` just before the commit, and the
store `after` is left: an operation was carried out on the document of the call as it is. -/
inductive CommitsCall (desk : Desk) (s : System) (c : Client) (after : Store) : Prop
  | intro {own user : String} {call : Call} {stored : Stored} {op : Operation}
      {arguments : Arguments} {path : List Taken} {r : Record} {t : Transaction}
      (hjob : c.job = .call own user call) (hget : s.store.get? own = some stored)
      (hasks : call.Asks op arguments)
      -- A call to accept a request judges its date by the instant at which it began.
      (hbegun : ∀ request, call = .acceptRequest request →
        c.journal.head? = some (.now arguments.now))
      (hallows : (Hints.ofHandle ⟨(s.backend.handsOut stored).record,
        (s.backend.handsOut stored).revision, user⟩).allows op arguments.request = true)
      (heffect : Effect ⟨arguments, desk.settings.folderCategory⟩
        ⟨(s.backend.handsOut stored).record, (s.backend.handsOut stored).revision, user⟩ op path
        r t)
      (hid : r.id = own)
      (hloads : ∀ target loaded, .load target (some loaded) ∈ path →
        s.backend.load s.store target = .ok (some loaded))
      (hfresh : ∀ kind name, .fresh kind name ∈ path → name ∈ unused c.journal)
      (hexpected : ∀ change ∈ stored.closing own r t,
        s.store.revision? change.id = change.expected?)
      (hmade : s.store.Made (stored.closing own r t) after) : CommitsCall desk s c after

/-- What a commit of a job may leave of the document `id`, told from the system `s` just
before it. -/
inductive Affects (desk : Desk) (s : System) (id : String) : Job → Option Stored → Prop
  | untouched {job : Job} : Affects desk s id job (s.store.get? id)
  | made {job : Job} {location : Option Location} {v : Variant} (hnew : s.store.get? id = none)
      (hstage : v.stage = .unpublished ∨
        ∃ location content user, job = .create location v.stage content user) :
      Affects desk s id job (some ⟨.single id location v, 1⟩)
  | removed {user : String} {call : Call} {stored : Stored} {op : Operation}
      {arguments : Arguments} {r : Record} {t : Transaction}
      (hcarries : CarriesOut desk s id user call stored op arguments r t)
      (hdeletes : t.deletes = true) : Affects desk s id (.call id user call) none
  | changed {user : String} {call : Call} {stored : Stored} {op : Operation}
      {arguments : Arguments} {r : Record} {t : Transaction}
      (hcarries : CarriesOut desk s id user call stored op arguments r t)
      (hdeletes : t.deletes = false) :
      Affects desk s id (.call id user call) (some ⟨r, stored.revision + 1⟩)
  | written {own user : String} {call : Call} {arguments : Arguments} {stored : Stored}
      {stage : Stage} {v : Variant} {content : Payload} {now : Instant}
      (hasks : call.Asks .restoreVersionTo arguments)
      (htarget : arguments.target = some ⟨id, stage⟩)
      (hother : own ≠ id) (hget : s.store.get? id = some stored)
      (hv : (s.backend.handsOut stored).record.variants.get stage = some v) :
      Affects desk s id (.call own user call)
        (some ⟨(s.backend.handsOut stored).record.putVariant stage
          (some (v.withContent content user now)), stored.revision + 1⟩)

/-- What a call that commits makes of a document. -/
theorem CommitsCall.affects {desk : Desk} {s : System} {c : Client} {after : Store}
    (h : CommitsCall desk s c after) (hfiled : s.store.Filed) (id : String) :
    Affects desk s id c.job (after.get? id) := by
  cases h with
  | @intro own user call stored op arguments path r t hjob hget hasks hbegun hallows heffect hid
      hloads hfresh hexpected hmade =>
      have hcarries : CarriesOut desk s own user call stored op arguments r t :=
        .intro hget hasks hallows heffect hloads
      rw [hjob]
      by_cases hown : id = own
      · rw [hown, hmade.get?_closing hid]
        cases hdeletes : t.deletes with
        | true => exact .removed hcarries hdeletes
        | false => exact .changed hcarries hdeletes
      by_cases hmem : id ∈ t.staged.map Change.id
      · obtain ⟨change, hm, rfl⟩ := List.mem_map.1 hmem
        have hclosing : change ∈ stored.closing own r t := List.mem_cons_of_mem _ hm
        have hrevision := hexpected change hclosing
        rw [hmade.get?_id hclosing]
        have hstages := heffect.staged
        generalize t.staged = changes at hstages hm
        cases hstages with
        | nothing => cases hm
        | copy =>
            rw [List.mem_singleton.1 hm] at hrevision ⊢
            exact .made (Option.map_eq_none_iff.1 hrevision) (Or.inl rfl)
        | @restore target loaded v content now htarget hne hloaded hv =>
            obtain ⟨other, hother, rfl, htargeted⟩ := hfiled.exists_of_load (hloads _ _ hloaded)
            rw [List.mem_singleton.1 hm] at hown ⊢
            rcases target with ⟨id, stage⟩
            show Affects desk s (s.backend.handsOut other).record.id _
              (some ⟨_, (s.backend.handsOut other).revision + 1⟩)
            rw [htargeted, s.backend.revision_handsOut other]
            exact .written hasks htarget (fun he => hown (htargeted.trans he.symm)) hother hv
      · rw [hmade.untouched id (by rw [stored.map_id_closing hid]; simp [hown, hmem])]
        exact .untouched

/-- What a call is about to commit was prepared in the last steps it took. -/
theorem Desk.exists_prepares_of_reaches {desk : Desk} (htable : desk.table = .standard)
    {id user : String} {call : Call} {journal : List Taken} {changes : List Change}
    {next : Except Failure Verdict → Process (Except Failure Product)}
    (hreaches : (desk.process (.call id user call)).Reaches journal (.ask (.commit changes) next)) :
    ∃ before op arguments last t, journal = before ++ last ∧ call.Asks op arguments ∧
      desk.Prepares id user op arguments last changes t ∧
      ∀ request, call = .acceptRequest request → journal.head? = some (.now arguments.now) := by
  by_cases haccepts : ∃ request, call = .acceptRequest request
  · obtain ⟨request, rfl⟩ := haccepts
    have hcall : desk.answer id user (.acceptRequest request) =
        desk.change id user .acceptRequest fun a => { a with request := some request } := rfl
    obtain ⟨begun, lost, last, t, hjournal, -, hprepares⟩ :=
      begins_of_reaches_change htable rfl hcall hreaches
    refine ⟨.now begun :: lost, _, _, last, t, hjournal, ⟨rfl, begun, begun, rfl⟩, hprepares,
      fun _ _ => ?_⟩
    rw [hjournal]
    rfl
  · obtain ⟨opening, op, arguments, lost, last, t, hjournal, -, hasks, hprepares, -⟩ :=
      turnsTo_of_reaches htable hreaches
    exact ⟨opening ++ lost, op, arguments, last, t, hjournal.trans (List.append_assoc ..).symm,
      hasks, hprepares, fun request he => absurd ⟨request, he⟩ haccepts⟩

namespace Office

variable {desk : Desk} {o : Office} {id : String}

/-! ## One commit -/

namespace Current

/-- A move that makes a commit makes changes that found the revisions they expected. -/
theorem of_committing? (h : o.Current desk) (htable : desk.table = .standard) {move : Move}
    {c : Client} (hc : o.committing? move = some c) :
    ∃ changes next, c ∈ o.clients ∧ c.process = .ask (.commit changes) next ∧
      (∀ change ∈ changes, o.system.store.revision? change.id = change.expected?) ∧
      (o.step desk move).system.store = o.system.store.applyAll changes := by
  obtain ⟨changes, next, hm, hp, hcommit, hsame⟩ := @Office.of_committing? desk o c move hc
  obtain ⟨i, hi⟩ := List.getElem?_of_mem hm
  refine ⟨changes, next, hm, hp,
    Store.expected_of_commit _ (h.nodup_committing htable hi hp) hcommit, ?_⟩
  rw [hsame.store]
  exact Backend.commit_of_committed hcommit

/-- What a call does that commits. -/
theorem commitsCall (h : o.Current desk) (htable : desk.table = .standard) {move : Move}
    {c : Client} (hc : o.committing? move = some c) {own user : String} {call : Call}
    (hjob : c.job = .call own user call) :
    CommitsCall desk o.system c (o.step desk move).system.store := by
  obtain ⟨changes, next, hm, hp, hexpected, hafter⟩ := h.of_committing? htable hc
  obtain ⟨i, hi⟩ := List.getElem?_of_mem hm
  have hdistinct := h.nodup_committing htable hi hp
  have hreaches := (h.traces c hm).reaches hp
  rw [hjob] at hreaches
  obtain ⟨before, op, arguments, last, t, hjournal, hasks, hprepares, hbegun⟩ :=
    Desk.exists_prepares_of_reaches htable hreaches
  have htold : ∀ step ∈ last, o.Tells step := fun step hstep =>
    ⟨c, hm, hjournal ▸ List.mem_append_right _ hstep⟩
  have hreads := hprepares.isReading htable
  have hload : ∀ {target loaded}, .load target (some loaded) ∈ last →
      o.system.backend.load o.system.store target = .ok (some loaded) :=
    h.load_of_prepares hprepares htold hexpected
  cases hprepares with
  | @loaded loaded path r _ _ hallows heffect hchanges =>
      have hloaded := hload (List.mem_cons_self ..)
      obtain ⟨stored, hget, hout⟩ := Backend.load_eq_some_iff.1 hloaded
      obtain ⟨-, rfl⟩ := Backend.handOut?_eq_ok_iff.1 hout
      have hid : r.id = own := (heffect.id_eq.trans (o.system.backend.id_handsOut stored)).trans
        (h.filed own stored hget)
      have hclosing : changes = stored.closing own r t := by
        unfold Stored.closing
        rcases Desk.changes_cases hchanges with ⟨hdeletes, rfl⟩ | ⟨hkeeps, -, rfl⟩
        · rw [show t.deletes = true from hdeletes, if_pos rfl,
            ← o.system.backend.revision_handsOut stored]
        · rw [show t.deletes = false from hkeeps, if_neg Bool.false_ne_true,
            ← o.system.backend.revision_handsOut stored]
      subst hclosing
      refine .intro hjob hget hasks hbegun hallows heffect hid
        (fun target loaded hm => hload (List.mem_cons_of_mem _ hm)) (fun kind name hm => ?_)
        hexpected ((Store.made_iff hdistinct).2 hafter)
      rw [hjournal]
      exact mem_unused (List.mem_cons_of_mem _ hm) hreads

/-- What a move that commits makes of a document. -/
theorem affects (h : o.Current desk) (htable : desk.table = .standard) {move : Move} {c : Client}
    (hc : o.committing? move = some c) (id : String) :
    Affects desk o.system id c.job ((o.step desk move).system.store.get? id) := by
  cases hjob : c.job with
  | call own user call =>
      have haffects := (h.commitsCall htable hc hjob).affects h.filed id
      rwa [hjob] at haffects
  | create location stage content user =>
      obtain ⟨changes, next, hm, hp, hexpected, hafter⟩ := h.of_committing? htable hc
      rw [hafter]
      rcases o.system.store.get?_applyAll changes id with
        ⟨hsame, -⟩ | ⟨change, hchange, rfl, hresult⟩
      · rw [hsame]
        exact .untouched
      · rw [hresult]
        have hreaches := (h.traces c hm).reaches hp
        rw [hjob] at hreaches
        generalize c.journal = journal at hreaches
        cases Desk.committing_of_reaches htable hreaches with
        | create hnamed hsettles hmade =>
            have hrevision := hexpected change hchange
            rw [List.mem_singleton.1 hchange] at hrevision ⊢
            exact .made (Option.map_eq_none_iff.1 hrevision)
              (Or.inr ⟨location, content, user, by rw [hmade.1]⟩)

end Current

/-! ## A document that was removed -/

/-- Nobody can make a document of this name any more, as the name is in use and nobody
holds it. -/
structure Spent (o : Office) (id : String) : Prop where
  used : id ∈ o.names
  released : ∀ i, ¬ o.Holds i id

theorem Current.spent (h : o.Current desk) {stored : Stored}
    (hget : o.system.store.get? id = some stored) : o.Spent id := by
  refine ⟨h.stored id stored hget, fun i hholds => ?_⟩
  rw [(h.held i id hholds).2.1] at hget
  cases hget

theorem Spent.step (h : o.Spent id) (desk : Desk) (move : Move) : (o.step desk move).Spent id := by
  refine ⟨names_step desk o move h.used, fun j hholds => ?_⟩
  rcases step_cases desk o move with ⟨job, rfl, -⟩ | hstep |
    ⟨i, c, query, next, now, name, -, hc, -, hr, hstep⟩
  · exact h.released j (holds_enter hholds)
  · rw [hstep] at hholds
    exact h.released j hholds
  · rw [hstep] at hholds
    rcases holds_take hc hholds with ⟨-, hh⟩ | ⟨rfl, hheld⟩
    · exact h.released j hh
    · rcases Taken.mem_holding hheld with hheld | ⟨kind, he⟩
      · exact h.released j ⟨c, hc, hheld⟩
      · exact (mem_namesAfter hr he).2 h.used

theorem Spent.run (h : o.Spent id) (desk : Desk) (moves : List Move) :
    (o.run desk moves).Spent id := by
  have hstep : ∀ (o : Office) move, o.Spent id → (o.step desk move).Spent id := fun o move h =>
    h.step desk move
  exact run_induction hstep h moves

/-- A document that is not there stays away if its name is spent. -/
theorem Current.get?_step_of_spent (h : o.Current desk) (htable : desk.table = .standard)
    (hspent : o.Spent id) (hnone : o.system.store.get? id = none) (move : Move) :
    (o.step desk move).system.store.get? id = none := by
  rcases step_cases desk o move with ⟨job, rfl, -⟩ | hstep |
    ⟨i, c, query, next, now, name, -, hc, hp, -, hstep⟩
  · exact hnone
  · rw [hstep]
    exact hnone
  · rw [hstep]
    cases query with
    | commit changes =>
        refine Option.eq_none_iff_forall_ne_some.2 fun stored hget => ?_
        rcases h.get?_commit htable hc hp hget with hget | ⟨old, hold, -⟩ | hholds
        · rw [hnone] at hget
          cases hget
        · rw [hnone] at hold
          cases hold
        · exact hspent.released i hholds
    | now | fresh kind | load id | find location | folder category container
    | pause milliseconds | log notice => exact hnone

/-- What every commit keeps of a document, a run keeps of it as long as it is there. -/
theorem Current.forall_get?_run {P : Stored → Prop} (htable : desk.table = .standard)
    {b : Backend} (hkeeps : ∀ s job stored after, s.backend = b → s.store.get? id = some stored →
      P stored → Affects desk s id job (some after) → P after)
    (moves : List Move) (h : o.Current desk) (hb : o.system.backend = b) (hspent : o.Spent id)
    (hP : ∀ stored, o.system.store.get? id = some stored → P stored) :
    ∀ stored, (o.run desk moves).system.store.get? id = some stored → P stored := by
  induction moves generalizing o with
  | nil => exact hP
  | cons move moves ih =>
      refine ih (h.step htable move) ((backend_step desk o move).trans hb) (hspent.step desk move)
        fun after hafter => ?_
      cases hc : o.committing? move with
      | none =>
          rw [(sameData_step hc).store] at hafter
          exact hP after hafter
      | some c =>
          cases hget : o.system.store.get? id with
          | none =>
              rw [h.get?_step_of_spent htable hspent hget move] at hafter
              cases hafter
          | some stored =>
              have haffects := h.affects htable hc id
              rw [hafter] at haffects
              exact hkeeps o.system c.job stored after hb hget (hP stored hget) haffects

end Office

end Editorial
