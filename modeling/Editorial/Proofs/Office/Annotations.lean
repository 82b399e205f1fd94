import Editorial.Proofs.Hints.Annotations
import Editorial.Proofs.Office.Lock
import Editorial.Proofs.Office.Published
import Editorial.Proofs.Store.Reading

/-!
# What stored variants say of themselves

What a variant says about its holder and its publication is right when it is made and stays
right whatever is done to it, so it is right in the store whoever works there.

The other way round, a draft in the store that nobody holds tells what happened to it: it
was held once, and somebody unlocked it. This is not a matter of one commit, as the draft
may have been written over, and the document renamed or published, many times since. It is
found out by going back from the end of the run; each commit before which the draft was
not held either leads one further back, until it was unlocked.

## Main results

* `annotated_run` — stored variants say the right thing.
* `Current.unheld_step` — what a draft that nobody holds was before a move.
* `annotations_match` — both, for every run of an office.
-/

namespace Editorial

namespace Job

/-- The job is to make a document that is published from the beginning. -/
def startsLive : Job → Bool
  | .create _ stage _ _ => stage = .published
  | .call _ _ _ => false

/-- The job is to obtain the draft of the document. -/
def Obtains (id : String) (job : Job) : Prop := ∃ user, job = .call id user .obtain

end Job

/-! ## Annotations -/

theorem Variant.isAnnotated_initial {stage : Stage} (id : String) (content : Payload)
    (user : String) (now : Instant) (hstage : stage ≠ .published) :
    (initial id stage content user now).IsAnnotated stage := by
  refine ⟨fun hholder => ?_, by simp [hstage]⟩
  by_cases hdraft : stage = .draft
  · exact hdraft
  · simp [hdraft] at hholder

/-- Reading a record again leaves what its variants say of themselves. -/
theorem Record.IsAnnotated.reread {r : Record} (h : r.IsAnnotated) : r.reread.IsAnnotated := by
  intro stage v hget
  rw [get_reread] at hget
  obtain ⟨v', hv', rfl⟩ := Option.map_eq_some_iff.1 hget
  have hv := h stage v' hv'
  exact ⟨hv.holder, hv.publishedAt⟩

namespace Desk

variable {desk : Desk} {id user : String}

/-- A call that loads only such records commits only such. -/
theorem Prepares.leaves_isAnnotated {op : Operation} {arguments : Arguments} {path : List Taken}
    {changes : List Change} {t : Transaction}
    (hp : desk.Prepares id user op arguments path changes t)
    (hloads : ∀ step ∈ path, step.Loads Record.IsAnnotated) :
    ∀ change ∈ changes, change.Leaves Record.IsAnnotated := by
  cases hp with
  | @loaded stored path r _ _ hallows heffect hchanges =>
      have hloaded : stored.record.IsAnnotated := hloads _ (List.mem_cons_self ..) stored rfl
      have hr := heffect.isAnnotated_record hloaded
      have hstages := heffect.isAnnotated_staged fun step hm =>
        hloads step (List.mem_cons_of_mem _ hm)
      exact leaves_changes (fun _ => hr) hstages hchanges

theorem commits_isAnnotated (htable : desk.table = .standard) {job : Job}
    (hjob : job.startsLive = false) :
    (desk.process job).Meets (Query.Commits Record.IsAnnotated)
      (Taken.Loads Record.IsAnnotated) fun _ => True := by
  refine meets_of_leaves htable (fun _ _ hprepares => hprepares.leaves_isAnnotated)
    fun id v now hcreate _ => ?_
  subst hcreate
  have hstage := of_decide_eq_false hjob
  refine .single _ _ ?_
  rw [Variant.stage_initial]
  exact Variant.isAnnotated_initial _ _ _ _ hstage

end Desk

/-- Stored variants say the right thing, in every run of an office that begins with an empty
store. -/
theorem Office.annotated_run {desk : Desk} (htable : desk.table = .standard) {s : System}
    (hs : s.store = .empty) {moves : List Move}
    (hmoves : ∀ job, .enter job ∈ moves → job.startsLive = false) :
    ∀ id stored, ((opening s).run desk moves).system.store.get? id = some stored →
      stored.record.IsAnnotated := by
  refine stored_run_of_meets (fun job hm => Desk.commits_isAnnotated htable (hmoves job hm))
    (fun _ hr => hr.reread) ?_
  intro id stored hget
  rw [hs, Keyed.get?_empty] at hget
  cases hget

/-! ## Drafts that nobody holds -/

/-- What the draft of the document `id` may have been before a move that makes the commit of
`job?`, or none, if it is `d` after that and nobody holds it: a draft that nobody held and
nobody obtained, or one that was unlocked. It was the same draft. -/
inductive UnheldDraft (id : String) (d : Variant) : Option Job → Option Variant → Prop
  | stayed {job? : Option Job} {d₀ : Variant} (hid : d₀.id = d.id) (hunheld : d₀.holder = none)
      (hjob : ∀ job ∈ job?, ¬ job.Obtains id) : UnheldDraft id d job? (some d₀)
  | unlocked {job : Job} {d₀ : Variant} {holder : String} (hid : d₀.id = d.id)
      (hheld : d₀.holder = some holder) (hother : holder ≠ job.user) (hjob : job.Unlocks id) :
      UnheldDraft id d (some job) (some d₀)

/-- What a draft that nobody holds after an operation on its document was before. -/
theorem CarriesOut.unheldDraft {desk : Desk} {s : System} {id user : String} {call : Call}
    {stored : Stored} {op : Operation} {arguments : Arguments} {r : Record} {t : Transaction}
    (h : CarriesOut desk s id user call stored op arguments r t) {d : Variant}
    (hd : r.variants.get .draft = some d) (hunheld : d.holder = none) :
    UnheldDraft id d (some (.call id user call)) (stored.record.variants.get .draft) := by
  cases h with
  | intro hget hasks hallows heffect hloads =>
      obtain ⟨hop, d', hd', hid, hheld⟩ := heffect.unheld hallows hd hunheld
      obtain ⟨d₀, hd₀, rfl⟩ :=
        Option.map_eq_some_iff.1 ((s.backend.get_handsOut stored .draft).symm.trans hd')
      rw [Backend.id_readsBack] at hid
      rw [Backend.holder_readsBack] at hheld
      rw [hd₀]
      rcases hheld with hheld | ⟨rfl, holder, hholder, hother⟩
      · refine .stayed hid hheld fun job hjob hobtains => ?_
        obtain ⟨user', he⟩ := hobtains
        cases (Option.mem_some_iff.1 hjob).trans he
        obtain ⟨-, begun, now, hturn⟩ := hasks
        cases hturn
        exact hop rfl
      · rw [hasks.eq_of_asking? rfl]
        exact .unlocked hid hholder hother ⟨user, rfl⟩

/-- A commit about another document leaves a draft that nobody holds only if it was there. -/
theorem Affects.unheldDraft {desk : Desk} {s : System} {id own user : String} {call : Call}
    {after : Stored} (h : Affects desk s id (.call own user call) (some after)) (hother : own ≠ id)
    {d : Variant} (hd : after.record.variants.get .draft = some d) (hunheld : d.holder = none) :
    UnheldDraft id d (some (.call own user call)) (s.store.draft? id) := by
  have hobtains : ∀ job ∈ some (Job.call own user call), ¬ job.Obtains id := by
    rintro job hm ⟨user', rfl⟩
    cases hm
    exact hother rfl
  generalize hafter : some after = after? at h
  generalize hjob : Job.call own user call = job at h
  cases h with
  | untouched =>
      rw [Store.draft?_eq_some_iff.2 ⟨after, hafter.symm, hd⟩, ← hjob]
      exact .stayed rfl hunheld hobtains
  | @made _ location v hnew hstage =>
      cases hafter
      subst hjob
      rcases hstage with hstage | ⟨location, content, user', he⟩
      · have hnone : (Record.single id location v).variants.get .draft = none :=
          Variants.get_put_ne _ _ (by rw [hstage]; decide)
        rw [hnone] at hd
        cases hd
      · cases he
  | removed => cases hafter
  | changed =>
      cases hjob
      exact absurd rfl hother
  | @written own' user' call' arguments stored stage v content now hasks htarget hne hget hv =>
      cases hafter
      cases hjob
      have hdraft : ∃ d', (s.backend.handsOut stored).record.variants.get .draft = some d' ∧
          d'.id = d.id ∧ d'.holder = none := by
        by_cases hstage : Stage.draft = stage
        · rw [Record.get_putVariant, if_pos hstage] at hd
          cases hd
          exact ⟨v, hstage ▸ hv, rfl, hunheld⟩
        · rw [Record.get_putVariant, if_neg hstage] at hd
          exact ⟨d, hd, rfl, hunheld⟩
      obtain ⟨d', hd', hid, hunheld'⟩ := hdraft
      obtain ⟨d₀, hd₀, rfl⟩ :=
        Option.map_eq_some_iff.1 ((s.backend.get_handsOut stored .draft).symm.trans hd')
      rw [Store.draft?_eq_some_iff.2 ⟨stored, hget, hd₀⟩]
      exact .stayed ((Backend.id_readsBack ..).symm.trans hid)
        ((Backend.holder_readsBack ..).symm.trans hunheld') hobtains

/-- What a draft that nobody holds after the commit of a call was before. -/
theorem CommitsCall.unheldDraft {desk : Desk} {s : System} {c : Client} {after : Store}
    (h : CommitsCall desk s c after) (hfiled : s.store.Filed) {id : String} {d : Variant}
    (hdraft : after.draft? id = some d) (hunheld : d.holder = none) :
    UnheldDraft id d (some c.job) (s.store.draft? id) := by
  obtain ⟨stored, hget, hd⟩ := Store.draft?_eq_some_iff.1 hdraft
  have haffects := h.affects hfiled id
  rw [hget] at haffects
  cases h with
  | @intro own user call stored' op arguments path r t hjob hget' hasks hbegun hallows heffect
      hid hloads hfresh hexpected hmade =>
      rw [hjob] at haffects ⊢
      by_cases hown : own = id
      · subst hown
        rw [hmade.get?_closing hid] at hget
        split at hget
        · cases hget
        · cases hget
          have hcarries : CarriesOut desk s own user call stored' op arguments r t :=
            .intro hget' hasks hallows heffect hloads
          rw [Store.draft?, hget']
          exact hcarries.unheldDraft hd hunheld
      · exact haffects.unheldDraft hown hd hunheld

/-- A draft that is made is held. -/
theorem UnheldDraft.of_create {s : Store} {location : Option Location} {stage : Stage}
    {content : Payload} {user made v : String} {now : Instant} {id : String} {d : Variant}
    (hdraft : (s.applyAll [.put (.single made location
      (.initial v stage content user now)) none]).draft? id = some d) (hunheld : d.holder = none) :
    UnheldDraft id d (some (.create location stage content user)) (s.draft? id) := by
  have hobtains : ∀ job ∈ some (Job.create location stage content user), ¬ job.Obtains id := by
    rintro job hm ⟨user', rfl⟩
    cases hm
  rw [Store.applyAll, List.foldl_cons, List.foldl_nil, Store.draft?, Store.get?_apply] at hdraft
  split at hdraft
  · rename_i hmade
    have hget : (Record.single made location (.initial v stage content user now)).variants.get
        .draft = some d := hdraft
    by_cases hstage : stage = .draft
    · subst hstage
      have hself : some (Variant.initial v .draft content user now) = some d := hget
      rw [← Option.some.inj hself] at hunheld
      simp at hunheld
    · have hnone : (Record.single made location
          (.initial v stage content user now)).variants.get .draft = none :=
        Variants.get_put_ne _ _ (by rw [Variant.stage_initial]; exact Ne.symm hstage)
      rw [hnone] at hget
      cases hget
  · have hsame : s.draft? id = some d := hdraft
    rw [hsame]
    exact .stayed rfl hunheld hobtains

namespace Office

variable {desk : Desk} {o : Office} {id : String} {d : Variant}

/-- What a draft that nobody holds after a move was before it. -/
theorem Current.unheld_step (h : o.Current desk) (htable : desk.table = .standard) (move : Move)
    (hdraft : (o.step desk move).system.store.draft? id = some d) (hunheld : d.holder = none) :
    UnheldDraft id d ((o.committing? move).map Client.job) (o.system.store.draft? id) := by
  cases hc : o.committing? move with
  | none =>
      rw [(sameData_step hc).store] at hdraft
      rw [hdraft]
      exact .stayed rfl hunheld fun _ hm => nomatch hm
  | some c =>
      rw [Option.map_some]
      cases hjob : c.job with
      | call own user call =>
          rw [← hjob]
          exact (h.commitsCall htable hc hjob).unheldDraft h.filed hdraft hunheld
      | create location stage content user =>
          obtain ⟨changes, next, hm, hp, -, hafter⟩ := h.of_committing? htable hc
          have hreaches := (h.traces c hm).reaches hp
          rw [hjob] at hreaches
          obtain ⟨-, made, v, now, -, rfl⟩ := Desk.reaches_create_commit hreaches
          rw [hafter] at hdraft
          exact .of_create hdraft hunheld

end Office

/-- In the move the draft `variant` of the document `id`, which somebody holds, is unlocked by
somebody else. -/
inductive Unlocking (o : Office) (move : Move) (id variant : String) : Prop
  | intro {c : Client} {d : Variant} {holder : String} (hc : o.committing? move = some c)
      (hjob : c.job.Unlocks id) (hdraft : o.system.store.draft? id = some d)
      (hid : d.id = variant) (hheld : d.holder = some holder) (hother : holder ≠ c.job.user) :
      Unlocking o move id variant

/-- In the run of `moves` the draft `variant` of the document `id` stays and nobody comes to
hold it. -/
structure StaysUnheld (desk : Desk) (o : Office) (moves : List Move) (id variant : String) :
    Prop where
  draft : ∀ during, during <+: moves → ∃ d,
    (o.run desk during).system.store.draft? id = some d ∧ d.id = variant ∧ d.holder = none
  commits : ∀ c ∈ o.commits desk moves, ¬ c.job.Obtains id

theorem StaysUnheld.concat {desk : Desk} {o : Office} {moves : List Move} {id variant : String}
    (h : StaysUnheld desk o moves id variant) {move : Move} {d : Variant}
    (hdraft : (o.run desk (moves ++ [move])).system.store.draft? id = some d)
    (hid : d.id = variant) (hunheld : d.holder = none)
    (hjob : ∀ c ∈ (o.run desk moves).committing? move, ¬ c.job.Obtains id) :
    StaysUnheld desk o (moves ++ [move]) id variant := by
  refine ⟨fun during hduring => ?_, ?_⟩
  · rcases List.prefix_concat_iff.1 hduring with rfl | hduring
    · exact ⟨d, hdraft, hid, hunheld⟩
    · exact h.draft during hduring
  · rw [Office.commits_concat, List.forall_mem_append]
    exact ⟨h.commits, fun c hc => hjob c (Option.mem_toList.1 hc)⟩

/-- A draft that nobody holds was unlocked in some move of the run, and nobody came to hold
it since. -/
theorem Office.exists_unlocking {desk : Desk} (htable : desk.table = .standard) {s : System}
    (hs : s.store = .empty) {moves : List Move} {id : String} {d : Variant}
    (hdraft : ((opening s).run desk moves).system.store.draft? id = some d)
    (hunheld : d.holder = none) :
    ∃ before move after, moves = before ++ move :: after ∧
      Unlocking ((opening s).run desk before) move id d.id ∧
      StaysUnheld desk ((opening s).run desk (before ++ [move])) after id d.id := by
  induction moves using List.reverseRecOn generalizing d with
  | nil =>
      change s.store.draft? id = some d at hdraft
      rw [hs, Store.draft?, Keyed.get?_empty] at hdraft
      cases hdraft
  | append_singleton moves move ih =>
      have hdraft' := hdraft
      rw [run_concat] at hdraft'
      have hstep := (current_run htable (Store.filed_of_empty hs) moves).unheld_step htable move
        hdraft' hunheld
      generalize hjob? : (((opening s).run desk moves).committing? move).map Client.job = job?
        at hstep
      generalize hbefore : ((opening s).run desk moves).system.store.draft? id = draft? at hstep
      cases hstep with
      | @stayed _ d₀ hid hunheld₀ hjob =>
          obtain ⟨before, move', after, rfl, hunlocking, hstays⟩ := ih hbefore hunheld₀
          rw [hid] at hunlocking hstays
          refine ⟨before, move', after ++ [move], List.append_assoc .., hunlocking, ?_⟩
          have hrun : ∀ moves', (opening s).run desk (before ++ move' :: moves') =
              ((opening s).run desk (before ++ [move'])).run desk moves' := fun moves' => by
            rw [← run_append, List.append_assoc, List.singleton_append]
          rw [List.append_assoc, List.cons_append, hrun] at hdraft
          refine hstays.concat hdraft rfl hunheld fun c hc => hjob c.job ?_
          rw [← hjob?, hrun, hc]
          rfl
      | unlocked hid hheld hother hjob =>
          obtain ⟨c, hc, rfl⟩ := Option.map_eq_some_iff.1 hjob?
          refine ⟨moves, move, [], rfl, .intro hc hjob hbefore hid hheld hother, ?_,
            List.forall_mem_nil _⟩
          intro during hduring
          rw [List.prefix_nil.1 hduring]
          exact ⟨d, hdraft, rfl, hunheld⟩

/-! ## Both -/

/-- In the store at the end of a run, variants say the right thing about their holder and
their publication, and a draft that nobody holds was unlocked since somebody came to hold
it. -/
structure AnnotationsMatch (desk : Desk) (s : System) (moves : List Move) : Prop where
  annotated : ∀ id stored, ((Office.opening s).run desk moves).system.store.get? id = some stored →
    ∀ stage v, stored.record.variants.get stage = some v →
      v.stage = stage ∧ v.IsAnnotated stage
  unheld : ∀ id d, ((Office.opening s).run desk moves).system.store.draft? id = some d →
    d.holder = none → ∃ before move after, moves = before ++ move :: after ∧
      Unlocking ((Office.opening s).run desk before) move id d.id ∧
      StaysUnheld desk ((Office.opening s).run desk (before ++ [move])) after id d.id

/-- In every run of an office that begins with an empty store, whatever the clock, the
backend and the settings. New documents are unpublished or drafts; a job to make one that is
published from the beginning, which no user can give, would leave it without a time. -/
theorem annotations_match (desk : Desk) (htable : desk.table = .standard) (s : System)
    (hs : s.store = .empty) (moves : List Move)
    (hmoves : ∀ job, .enter job ∈ moves → job.startsLive = false) :
    AnnotationsMatch desk s moves := by
  refine ⟨fun id stored hget stage v hv => ⟨?_, ?_⟩, fun id d hdraft hunheld => ?_⟩
  · have hfit := (Office.fit_run htable hs moves).stored id stored hget
    exact hfit.sound.filed stage v hv
  · exact Office.annotated_run htable hs hmoves id stored hget stage v hv
  · exact Office.exists_unlocking htable hs hdraft hunheld

/-- Ann makes a draft, Bob unlocks it, and Ann goes on writing. -/
theorem annotations_match_unlocked :
    let work (client : Nat) (job : Job) : List Move :=
      .enter job :: List.replicate 9 (.advance client .epoch "")
    let moves : List Move :=
      [.enter (.create none .draft .null "ann"), .advance 0 .epoch "a", .advance 0 .epoch "v",
        .advance 0 .epoch "", .advance 0 .epoch ""] ++
      work 1 (.call "a" "bob" .unlock) ++ work 2 (.call "a" "ann" (.update (.ofJson (.string "more"))))
    let o := (Office.opening {}).run {} moves
    (o.system.store.draft? "a").map (fun d => (d.content, d.holder)) =
        some (.ofJson (.string "more"), none) ∧
      (∀ job, .enter job ∈ moves → job.startsLive = false) ∧ AnnotationsMatch {} {} moves := by
  intro work moves o
  have hmoves : ∀ job, .enter job ∈ moves → job.startsLive = false := by
    intro job hm
    simp [moves, work] at hm
    rcases hm with rfl | rfl | rfl <;> rfl
  exact ⟨by decide +kernel, hmoves, annotations_match {} rfl {} rfl moves hmoves⟩

end Editorial
