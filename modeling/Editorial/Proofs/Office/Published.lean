import Editorial.Proofs.Hints.Published
import Editorial.Proofs.Office.Footprint
import Editorial.Proofs.Office.Pending
import Editorial.Proofs.Store.Reading

/-!
# Where the text readers see comes from

What readers see was the unpublished text once. That is not a matter of one operation: the
unpublished text may have been written over many times since, and between a commit and the
moment at which it was prepared others may have published, withdrawn or removed. So it is
told of each move what becomes of the published variant, from the store just before the
move, and all else follows from the order of the moves. A published variant was put there
by a job that publishes, with the content that the unpublished variant had at that commit,
and it stays until a job withdraws it or removes the document.

A job to write a version over the published variant is an exception. And in a table a
published variant is written back with each commit about the document as it was read, so a
double in it may become a neighbour of itself, however often and whatever the commit is
about.

## Main results

* `liveStep` — what one move makes of a published variant.
* `exists_publication` — where a published variant comes from.
* `stays_or_withdrawn` — how long it stays.
* `published_holds` — the same for every run of an office.
* `published_drifts` — a published text in a table that does not stay.
-/

namespace Editorial

/-! ## Jobs -/

namespace Job

/-- By the job what `ask` asks for is done to the document `id`, whose record is `r`: the job
is to do that, at some date or not, to accept a request of the kind `kind`, or to run one
of the kind `scheduled` that is due. -/
inductive Brings (id : String) (r : Record) (ask : Option Instant → Call)
    (kind scheduled : RequestKind) : Job → Prop
  | called {user : String} {date? : Option Instant} :
      Brings id r ask kind scheduled (.call id user (ask date?))
  | accepted {user n : String} {q : Request} (hq : r.request? n = some q)
      (hkind : q.kind = kind) : Brings id r ask kind scheduled (.call id user (.acceptRequest n))
  | ran {user : String} {q : Request} {now : Instant} (hq : r.pending? = some q)
      (hkind : q.kind = scheduled) (hdue : q.isDue now = true) :
      Brings id r ask kind scheduled (.call id user (.runScheduled now))

/-- The job publishes the document `id`, whose record is `r`. -/
def Publishes (id : String) (r : Record) : Job → Prop :=
  Brings id r .publish .publication .scheduledPublication

/-- The job takes the document `id` offline, whose record is `r`. -/
def Withdraws (id : String) (r : Record) : Job → Prop :=
  Brings id r .depublish .depublication .scheduledDepublication

/-- The job removes the document `id`, whose record is `r`: it is to do that or to accept a
request for it. -/
def Removes (id : String) (r : Record) (job : Job) : Prop :=
  ∃ user call, job = .call id user call ∧ call.removes r = true

/-- The job is to write a version over the published variant of the document `id`, or to make
a document that is published from the beginning. -/
def writesLive (id : String) : Job → Bool
  | .call _ _ (.restoreVersionTo _ target) => target = ⟨id, .published⟩
  | .create _ stage _ _ => stage = .published
  | _ => false

end Job

/-- What a job comes to is what was asked for. -/
theorem Operation.ComesTo.brings {op target : Operation} {arguments : Arguments} {r : Record}
    {call : Call} {ask : Option Instant → Call} {kind scheduled : RequestKind}
    (h : op.ComesTo arguments r target) (hasks : call.Asks op arguments)
    (hask : call.Asks target arguments → ∃ date?, call = ask date?)
    (hkinds : ∀ kind', Operation.resolving? kind' = some target →
      kind' = if kind'.isScheduled then scheduled else kind) (id user : String) :
    Job.Brings id r ask kind scheduled (.call id user call) := by
  cases h with
  | itself =>
      obtain ⟨date?, rfl⟩ := hask hasks
      exact .called
  | accepted hid hq hkind hwaits =>
      rw [hasks.eq_of_asking? (congrArg (Option.map Call.acceptRequest) hid)]
      have hkind := hkinds _ hkind
      rw [hwaits] at hkind
      exact .accepted hq hkind
  | ran hq hkind hdue =>
      rw [hasks.eq_of_asking? rfl]
      have hkind := hkinds _ hkind
      rw [(Bool.and_eq_true_iff.1 hdue).1] at hkind
      exact .ran hq hkind hdue

/-! ## One commit -/

/-- What may become of the published variant of the document `id` in a move that makes the
commit of `job?`, or none, told of what was stored before and what is then. A variant that
was read back is as `reads` has it. -/
inductive LiveStep (reads : Variant → Variant) (id : String) :
    Option Job → Option Stored → Option Stored → Prop
  | untouched {job? : Option Job} {stored? : Option Stored} :
      LiveStep reads id job? stored? stored?
  | made {job : Job} {after : Stored} (hnone : after.record.variants.get .published = none) :
      LiveStep reads id (some job) none (some after)
  | removed {job : Job} {stored : Stored} (hjob : job.Removes id stored.record) :
      LiveStep reads id (some job) (some stored) none
  | kept {job : Job} {stored after : Stored}
      (hkept : after.record.variants.get .published =
        (stored.record.variants.get .published).map reads) :
      LiveStep reads id (some job) (some stored) (some after)
  | published {job : Job} {stored after : Stored} {u p : Variant}
      (hjob : job.Publishes id stored.record)
      (hnone : stored.record.variants.get .published = none)
      (hu : stored.record.variants.get .unpublished = some u)
      (hu' : after.record.variants.get .unpublished = some (reads u))
      (hp : after.record.variants.get .published = some p)
      (hcontent : p.content = (reads u).content) :
      LiveStep reads id (some job) (some stored) (some after)
  | withdrawn {job : Job} {stored after : Stored} (hjob : job.Withdraws id stored.record)
      (hnone : after.record.variants.get .published = none) :
      LiveStep reads id (some job) (some stored) (some after)
  | overwritten {job : Job} {stored? : Option Stored} {after : Stored}
      (hjob : job.writesLive id = true) : LiveStep reads id (some job) stored? (some after)

/-- What an operation comes to on a record that was read again. -/
theorem Operation.ComesTo.of_handsOut {b : Backend} {stored : Stored} {op target : Operation}
    {arguments : Arguments} (h : op.ComesTo arguments (b.handsOut stored).record target) :
    op.ComesTo arguments stored.record target := by
  cases h with
  | itself => exact .itself
  | accepted hid hq hkind hwaits => exact .accepted hid (by simpa using hq) hkind hwaits
  | ran hq hkind hdue => exact .ran (by simpa using hq) hkind hdue

section

variable {desk : Desk} {s : System} {id user : String} {call : Call} {stored : Stored}
  {op : Operation} {arguments : Arguments} {r : Record} {t : Transaction}

theorem CarriesOut.removes (h : CarriesOut desk s id user call stored op arguments r t)
    (hdeletes : t.deletes = true) : call.removes stored.record = true := by
  cases h with
  | intro hget hasks hallows heffect hloads =>
      rw [← hdeletes, heffect.deletes_eq, hasks.removes_eq, call.removes_handsOut]

/-- What a call about the document makes of its published variant. -/
theorem CarriesOut.liveStep (hfiled : s.store.Filed)
    (h : CarriesOut desk s id user call stored op arguments r t)
    (hids : (stored.record.requests.map Request.id).Nodup) (revision : Nat) :
    LiveStep s.backend.readsBack id (some (.call id user call)) (some stored)
      (some ⟨r, revision⟩) := by
  cases h with
  | intro hget hasks hallows heffect hloads =>
      have hget' : ∀ stage, (s.backend.handsOut stored).record.variants.get stage =
          (stored.record.variants.get stage).map s.backend.readsBack :=
        s.backend.get_handsOut stored
      have hshows := heffect.shows hallows (by simpa using hids)
      cases hshows with
      | kept hkept => exact .kept (hkept.trans (hget' .published))
      | published hop hnone hu hu' hp hcontent =>
          obtain ⟨v, hv, rfl⟩ := Option.map_eq_some_iff.1 ((hget' .unpublished).symm.trans hu)
          have hnone := Option.map_eq_none_iff.1 ((hget' .published).symm.trans hnone)
          refine .published (hop.of_handsOut.brings hasks (fun hasks => hasks.eq_publish) ?_ id user)
            hnone hv hu' hp hcontent
          exact fun kind hkind => by cases kind <;> cases hkind <;> rfl
      | withdrawn hop hnone =>
          refine .withdrawn (hop.of_handsOut.brings hasks (fun hasks => hasks.eq_depublish) ?_ id
            user) hnone
          exact fun kind hkind => by cases kind <;> cases hkind <;> rfl
      | overwritten hop htarget =>
          obtain ⟨timestamp, rfl⟩ := hasks.eq_restoreVersionTo htarget
          have hid : (s.backend.handsOut stored).record.id = id :=
            (s.backend.id_handsOut stored).trans (hfiled id stored hget)
          exact .overwritten (decide_eq_true (congrArg (Reference.mk · Stage.published) hid))

/-- What a commit makes of a published variant. -/
theorem Affects.liveStep (hfiled : s.store.Filed)
    (hids : ∀ stored, s.store.get? id = some stored →
      (stored.record.requests.map Request.id).Nodup) {job : Job} {after? : Option Stored}
    (h : Affects desk s id job after?) :
    LiveStep s.backend.readsBack id (some job) (s.store.get? id) after? := by
  cases h with
  | untouched => exact .untouched
  | @made _ location v hnew hstage =>
      rw [hnew]
      by_cases hpublished : v.stage = .published
      · obtain hunpublished | ⟨location, content, user, rfl⟩ := hstage
        · rw [hpublished] at hunpublished
          cases hunpublished
        · exact .overwritten (decide_eq_true hpublished)
      · exact .made (Variants.get_put_ne _ _ (Ne.symm hpublished))
  | removed hcarries hdeletes =>
      rw [hcarries.get?_eq]
      exact .removed ⟨_, _, rfl, hcarries.removes hdeletes⟩
  | changed hcarries hdeletes =>
      rw [hcarries.get?_eq]
      exact hcarries.liveStep hfiled (hids _ hcarries.get?_eq) _
  | @written own user call arguments stored stage v content now hasks htarget hother hget hv =>
      rw [hget]
      by_cases hstage : stage = .published
      · subst hstage
        obtain ⟨timestamp, rfl⟩ := hasks.eq_restoreVersionTo htarget
        exact .overwritten (decide_eq_true rfl)
      · refine .kept ((Variants.get_put_ne _ _ (Ne.symm hstage)).trans ?_)
        exact s.backend.get_handsOut stored .published

end

/-! ## One move -/

/-- The published variant of a document in the store. -/
def Store.published? (s : Store) (id : String) : Option Variant := do
  (← s.get? id).record.variants.get .published

theorem Store.published?_eq_some_iff {s : Store} {id : String} {p : Variant} :
    s.published? id = some p ↔
      ∃ stored, s.get? id = some stored ∧ stored.record.variants.get .published = some p :=
  Option.bind_eq_some_iff

/-- In the move `p` is published as the document `id`: a job that publishes commits, and `p`
has the content of the unpublished variant at that commit. -/
inductive Publication (desk : Desk) (o : Office) (move : Move) (id : String) (p : Variant) : Prop
  | intro {c : Client} {stored after : Stored} {u : Variant}
      (hc : o.committing? move = some c) (hjob : c.job.Publishes id stored.record)
      (hget : o.system.store.get? id = some stored)
      (hnone : stored.record.variants.get .published = none)
      (hu : stored.record.variants.get .unpublished = some u)
      (hget' : (o.step desk move).system.store.get? id = some after)
      (hu' : after.record.variants.get .unpublished = some (o.system.backend.readsBack u))
      (hp : after.record.variants.get .published = some p)
      (hcontent : p.content = (o.system.backend.readsBack u).content) :
      Publication desk o move id p

/-- In the move the published variant of the document `id` is taken away: a job commits that
takes the document offline or removes it. -/
inductive Withdrawal (desk : Desk) (o : Office) (move : Move) (id : String) : Prop
  | offline {c : Client} {stored after : Stored} (hc : o.committing? move = some c)
      (hjob : c.job.Withdraws id stored.record) (hget : o.system.store.get? id = some stored)
      (hget' : (o.step desk move).system.store.get? id = some after)
      (hnone : after.record.variants.get .published = none) : Withdrawal desk o move id
  | removed {c : Client} {stored : Stored} (hc : o.committing? move = some c)
      (hjob : c.job.Removes id stored.record) (hget : o.system.store.get? id = some stored)
      (hgone : (o.step desk move).system.store.get? id = none) : Withdrawal desk o move id

namespace Office

variable {desk : Desk} {o : Office} {id : String} {p : Variant} {move : Move}

/-- What one move makes of a published variant. -/
theorem Current.liveStep (h : o.Current desk) (hfit : o.Fit desk) (htable : desk.table = .standard)
    (move : Move) (id : String) :
    LiveStep o.system.backend.readsBack id ((o.committing? move).map Client.job)
      (o.system.store.get? id) ((o.step desk move).system.store.get? id) := by
  cases hc : o.committing? move with
  | none =>
      rw [(sameData_step hc).store]
      exact .untouched
  | some c =>
      exact (h.affects htable hc id).liveStep h.filed fun stored hget =>
        (hfit.stored id stored hget).distinct

/-- What is published after a move was published before it or is by it. -/
theorem published_before_or_publication
    (h : LiveStep o.system.backend.readsBack id ((o.committing? move).map Client.job)
      (o.system.store.get? id) ((o.step desk move).system.store.get? id))
    (hharmless : ∀ c ∈ o.committing? move, c.job.writesLive id = false)
    (hp : (o.step desk move).system.store.published? id = some p) :
    (∃ p', o.system.store.published? id = some p' ∧
        (p = p' ∨ p = o.system.backend.readsBack p')) ∨
      Publication desk o move id p := by
  obtain ⟨after, hget', hp⟩ := Store.published?_eq_some_iff.1 hp
  rw [hget'] at h
  generalize hjob? : (o.committing? move).map Client.job = job? at h
  generalize hget : o.system.store.get? id = stored? at h
  have hclient : ∀ {job}, job? = some job → ∃ c, o.committing? move = some c ∧ c.job = job :=
    fun he => Option.map_eq_some_iff.1 (hjob?.trans he)
  cases h with
  | untouched =>
      exact Or.inl ⟨p, Store.published?_eq_some_iff.2 ⟨after, hget, hp⟩, Or.inl rfl⟩
  | made hnone | withdrawn hjob hnone =>
      rw [hnone] at hp
      cases hp
  | @kept job stored _ hkept =>
      obtain ⟨p', hp', rfl⟩ := Option.map_eq_some_iff.1 (hkept.symm.trans hp)
      exact Or.inl ⟨p', Store.published?_eq_some_iff.2 ⟨stored, hget, hp'⟩, Or.inr rfl⟩
  | published hjob hnone hu hu' hp' hcontent =>
      obtain ⟨c, hc, rfl⟩ := hclient rfl
      obtain rfl := Option.some.inj (hp'.symm.trans hp)
      exact Or.inr (.intro hc hjob hget hnone hu hget' hu' hp hcontent)
  | overwritten hjob =>
      obtain ⟨c, hc, rfl⟩ := hclient rfl
      rw [hharmless c hc] at hjob
      cases hjob

/-- What is published before a move is so after it, unless the move takes it away. -/
theorem published_after_or_withdrawal
    (h : LiveStep o.system.backend.readsBack id ((o.committing? move).map Client.job)
      (o.system.store.get? id) ((o.step desk move).system.store.get? id))
    (hharmless : ∀ c ∈ o.committing? move, c.job.writesLive id = false)
    (hp : o.system.store.published? id = some p) :
    (∃ p', (o.step desk move).system.store.published? id = some p' ∧
        (p' = p ∨ p' = o.system.backend.readsBack p)) ∨
      Withdrawal desk o move id := by
  obtain ⟨stored, hget, hp⟩ := Store.published?_eq_some_iff.1 hp
  rw [hget] at h
  generalize hjob? : (o.committing? move).map Client.job = job? at h
  generalize hget' : (o.step desk move).system.store.get? id = after? at h
  have hclient : ∀ {job}, job? = some job → ∃ c, o.committing? move = some c ∧ c.job = job :=
    fun he => Option.map_eq_some_iff.1 (hjob?.trans he)
  cases h with
  | untouched =>
      exact Or.inl ⟨p, Store.published?_eq_some_iff.2 ⟨stored, hget', hp⟩, Or.inl rfl⟩
  | removed hjob =>
      obtain ⟨c, hc, rfl⟩ := hclient rfl
      exact Or.inr (.removed hc hjob hget hget')
  | @kept job _ after hkept =>
      rw [hp] at hkept
      exact Or.inl ⟨_, Store.published?_eq_some_iff.2 ⟨after, hget', hkept⟩, Or.inr rfl⟩
  | published hjob hnone =>
      rw [hnone] at hp
      cases hp
  | withdrawn hjob hnone =>
      obtain ⟨c, hc, rfl⟩ := hclient rfl
      exact Or.inr (.offline hc hjob hget hget' hnone)
  | overwritten hjob =>
      obtain ⟨c, hc, rfl⟩ := hclient rfl
      rw [hharmless c hc] at hjob
      cases hjob

/-! ## Runs -/

theorem commits_concat (desk : Desk) (o : Office) (moves : List Move) (move : Move) :
    o.commits desk (moves ++ [move]) =
      o.commits desk moves ++ ((o.run desk moves).committing? move).toList := by
  induction moves generalizing o with
  | nil => exact List.append_nil _
  | cons first moves ih =>
      rw [List.cons_append, commits, ih, commits, List.append_assoc]
      rfl

/-- A published variant was published in some move of the run. -/
theorem exists_publication (htable : desk.table = .standard) {s : System} (hs : s.store = .empty)
    {moves : List Move} (hp : ((opening s).run desk moves).system.store.published? id = some p)
    (hharmless : ∀ c ∈ (opening s).commits desk moves, c.job.writesLive id = false) :
    ∃ before move after p₀ n, moves = before ++ move :: after ∧
      Publication desk ((opening s).run desk before) move id p₀ ∧
      p = s.backend.readsBack^[n] p₀ := by
  -- Where a variant was put is found by going back from the end.
  induction moves using List.reverseRecOn generalizing p with
  | nil =>
      change s.store.published? id = some p at hp
      rw [hs] at hp
      cases hp
  | append_singleton moves move ih =>
      rw [commits_concat, List.forall_mem_append] at hharmless
      rw [run_concat] at hp
      have hstep := (current_run htable (Store.filed_of_empty hs) moves).liveStep
        (fit_run htable hs moves) htable move id
      rcases published_before_or_publication hstep
        (fun c hc => hharmless.2 c (Option.mem_toList.2 hc)) hp with ⟨p', hp', hsame⟩ | hpublication
      · obtain ⟨before, move', after, p₀, n, rfl, hpublication, rfl⟩ := ih hp' hharmless.1
        rw [backend_run desk (opening s)] at hsame
        rcases hsame with rfl | rfl
        · exact ⟨before, move', after ++ [move], p₀, n, List.append_assoc .., hpublication, rfl⟩
        · exact ⟨before, move', after ++ [move], p₀, n + 1, List.append_assoc .., hpublication,
            (Function.iterate_succ_apply' ..).symm⟩
      · exact ⟨moves, move, [], p, 0, rfl, hpublication, rfl⟩

/-- A published variant stays, unless some move of the run takes it away. -/
theorem stays_or_withdrawn (htable : desk.table = .standard) {s : System} (hs : s.store = .empty)
    {before during : List Move}
    (hp : ((opening s).run desk before).system.store.published? id = some p)
    (hharmless : ∀ c ∈ ((opening s).run desk before).commits desk during,
      c.job.writesLive id = false) :
    (∃ n, ((opening s).run desk (before ++ during)).system.store.published? id =
        some (s.backend.readsBack^[n] p)) ∨
      ∃ earlier move later, during = earlier ++ move :: later ∧
        Withdrawal desk ((opening s).run desk (before ++ earlier)) move id := by
  induction during using List.reverseRecOn with
  | nil =>
      rw [List.append_nil]
      exact Or.inl ⟨0, hp⟩
  | append_singleton during move ih =>
      rw [commits_concat, List.forall_mem_append] at hharmless
      rcases ih hharmless.1 with ⟨n, hn⟩ | ⟨earlier, move', later, rfl, hwithdrawal⟩
      · have hstep := (current_run htable (Store.filed_of_empty hs) (before ++ during)).liveStep
          (fit_run htable hs (before ++ during)) htable move id
        rw [← run_append] at hharmless
        rcases published_after_or_withdrawal hstep
          (fun c hc => hharmless.2 c (Option.mem_toList.2 hc)) hn with ⟨p', hp', hsame⟩ | hwithdrawal
        · rw [backend_run desk (opening s)] at hsame
          rw [← List.append_assoc, run_concat, hp']
          rcases hsame with rfl | rfl
          · exact Or.inl ⟨n, rfl⟩
          · exact Or.inl ⟨n + 1, congrArg some (Function.iterate_succ_apply' ..).symm⟩
        · exact Or.inr ⟨during, move, [], rfl, hwithdrawal⟩
      · exact Or.inr ⟨earlier, move', later ++ [move], List.append_assoc .., hwithdrawal⟩

end Office

/-! ## What readers see -/

/-- Where the published variants in the runs of an office come from and how long they stay,
if no job writes over them. -/
structure PublishedHolds (desk : Desk) (s : System) : Prop where
  /-- One move, in any run. -/
  step : ∀ (moves : List Move) (move : Move) (id : String),
    let o := (Office.opening s).run desk moves
    LiveStep s.backend.readsBack id ((o.committing? move).map Client.job)
      (o.system.store.get? id) ((o.step desk move).system.store.get? id)
  /-- A published variant was published at some move, with the content that the unpublished
  variant had then, and is still what it was. -/
  origin : ∀ (moves : List Move) (id : String) (p : Variant),
    ((Office.opening s).run desk moves).system.store.published? id = some p →
    (∀ c ∈ (Office.opening s).commits desk moves, c.job.writesLive id = false) →
    ∃ before move after p₀, moves = before ++ move :: after ∧
      Publication desk ((Office.opening s).run desk before) move id p₀ ∧
      s.backend.RecallsVariant p₀ p
  /-- It stays what it is until some move takes it away. -/
  stays : ∀ (before during : List Move) (id : String) (p : Variant),
    let o := (Office.opening s).run desk before
    o.system.store.published? id = some p →
    (∀ c ∈ o.commits desk during, c.job.writesLive id = false) →
    (∃ p', (o.run desk during).system.store.published? id = some p' ∧
        s.backend.RecallsVariant p p') ∨
      ∃ earlier move later, during = earlier ++ move :: later ∧
        Withdrawal desk (o.run desk earlier) move id

/-- In every run of an office that begins with an empty store, whatever the clock, the
backend and the settings: a published variant was put there by a job that publishes, with
the content of the unpublished variant at that commit, and stays as it is until a job takes
the document offline or removes it, as long as no version is written over it. Only a
content with doubles may be read back as another one, if the store is a table. -/
theorem published_holds (desk : Desk) (htable : desk.table = .standard) (s : System)
    (hs : s.store = .empty) : PublishedHolds desk s := by
  refine ⟨fun moves move id => ?_, fun moves id p hp hharmless => ?_,
    fun before during id p => ?_⟩
  · intro o
    have hbackend : o.system.backend = s.backend := Office.backend_run desk (.opening s) moves
    rw [← hbackend]
    exact (Office.current_run htable (Store.filed_of_empty hs) moves).liveStep
      (Office.fit_run htable hs moves) htable move id
  · obtain ⟨before, move, after, p₀, n, hmoves, hpublication, rfl⟩ :=
      Office.exists_publication htable hs hp hharmless
    exact ⟨before, move, after, p₀, hmoves, hpublication, s.backend.recallsVariant_iterate p₀ n⟩
  · intro o hp hharmless
    have hrun : ∀ moves, o.run desk moves = (Office.opening s).run desk (before ++ moves) :=
      fun moves => (Office.run_append ..).symm
    rw [hrun]
    rcases Office.stays_or_withdrawn htable hs hp hharmless with ⟨n, hn⟩ |
      ⟨earlier, move, later, hduring, hwithdrawal⟩
    · exact Or.inl ⟨_, hn, s.backend.recallsVariant_iterate p n⟩
    · exact Or.inr ⟨earlier, move, later, hduring, by rw [hrun]; exact hwithdrawal⟩

/-- Bob publishes what Ann wrote. Then Ann writes another text and commits it. Readers still
see the first text. -/
theorem published_holds_edited :
    let work (client : Nat) (name : String) (job : Job) : List Move :=
      .enter job :: List.replicate 9 (.advance client .epoch name)
    let text (s : String) : Payload := .ofJson (.string s)
    let moves : List Move :=
      [.enter (.create none .unpublished (text "first") "ann"), .advance 0 .epoch "a"] ++
      List.replicate 3 (.advance 0 .epoch "u") ++
      work 1 "p" (.call "a" "bob" (.publish none)) ++ work 2 "d" (.call "a" "ann" .obtain) ++
      work 3 "" (.call "a" "ann" (.update (text "second"))) ++ work 4 "" (.call "a" "ann" .commit)
    let o := (Office.opening {}).run {} moves
    ((o.system.store.get? "a").map fun stored =>
        (stored.record.variants.published.map Variant.content,
          stored.record.variants.unpublished.map Variant.content)) =
      some (some (text "first"), some (text "second")) ∧ PublishedHolds {} {} := by
  intro work text moves o
  exact ⟨by decide +kernel, published_holds {} rfl {} rfl⟩

/-- In a table the published text becomes another one when a version is taken. -/
theorem published_drifts :
    let work (client : Nat) (name : String) (job : Job) : List Move :=
      .enter job :: List.replicate 9 (.advance client .epoch name)
    let content (bits : UInt64) : Payload := .ofJson (.double ⟨bits⟩)
    let moves : List Move :=
      [.enter (.create none .unpublished (content 4259304194031319137) "ann"),
        .advance 0 .epoch "a"] ++ List.replicate 3 (.advance 0 .epoch "u") ++
      work 1 "p" (.call "a" "bob" (.publish none))
    let o := (Office.opening { backend := .stepwise }).run {} moves
    let during := work 2 "" (.call "a" "cy" .version)
    (o.system.store.published? "a").map Variant.content =
        some (content 4259304194031319138) ∧
      (o.commits {} during).map Client.job = [.call "a" "cy" .version] ∧
      ((o.run {} during).system.store.published? "a").map Variant.content =
        some (content 4259304194031319137) := by
  decide +kernel

end Editorial
