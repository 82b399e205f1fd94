import Mathlib.Logic.Function.Iterate
import Editorial.Proofs.Hints.Lock
import Editorial.Proofs.Office.Changes
import Editorial.Proofs.Store.Reading

/-!
# Drafts that are held

While a user holds a draft, others may work on the same document and even be about to
commit what they made of it before the draft was held. A commit finds out, as it needs
the revision that the document was loaded at. So what a commit makes of a draft, it
makes of the draft as it is then: nothing, if somebody else holds it, unless the draft
is to be unlocked or a version is to be written over it.

A table hands contents out as they are read again from their texts, so what is
committed besides a draft takes the draft along as it was read.

## Main results

* `heldDraft_step` — what one move makes of a draft that is held.
* `locks_hold` — what the holder may rely on in every run of an office.
-/

namespace Editorial

/-! ## Drafts in the store -/

/-- The draft of a document in the store. -/
def Store.draft? (s : Store) (id : String) : Option Variant := do
  (← s.get? id).record.variants.get .draft

theorem Store.draft?_eq_some_iff {s : Store} {id : String} {d : Variant} :
    s.draft? id = some d ↔
      ∃ stored, s.get? id = some stored ∧ stored.record.variants.get .draft = some d :=
  Option.bind_eq_some_iff

/-! ## Jobs -/

namespace Job

/-- The user whose job it is. -/
def user : Job → String
  | .call _ user _ => user
  | .create _ _ _ user => user

/-- The job is to unlock the draft of the document. -/
def Unlocks (id : String) (job : Job) : Prop := ∃ user, job = .call id user .unlock

/-- The job is to write a version over the draft of the document. -/
def WritesOver (id : String) (job : Job) : Prop :=
  ∃ own user timestamp, job = .call own user (.restoreVersionTo timestamp ⟨id, .draft⟩)

end Job

/-- What may become of the draft `d` of the document `id`, held by `holder`, in a move
that makes the commit of `job?`, or none. A variant that was read back is as `reads`
has it. -/
inductive HeldDraft (reads : Variant → Variant) (id holder : String) (d : Variant) :
    Option Job → Option Variant → Prop
  | untouched {job? : Option Job} : HeldDraft reads id holder d job? (some d)
  | kept {job : Job} : HeldDraft reads id holder d (some job) (some (reads d))
  | own {job : Job} {draft? : Option Variant} (huser : job.user = holder) :
      HeldDraft reads id holder d (some job) draft?
  | unlocked {job : Job} (hjob : job.Unlocks id) :
      HeldDraft reads id holder d (some job) (some (reads d).released)
  | overwritten {job : Job} {content : Payload} {now : Instant} (hjob : job.WritesOver id) :
      HeldDraft reads id holder d (some job) (some ((reads d).withContent content job.user now))

theorem DraftLeft.heldDraft {reads : Variant → Variant} {own user holder id : String} {call : Call}
    {op : Operation} {arguments : Arguments} {d d' : Variant}
    (h : DraftLeft user own op arguments id (reads d) d') (hasks : call.Asks op arguments) :
    HeldDraft reads id holder d (some (.call own user call)) (some d') := by
  cases h with
  | kept => exact .kept
  | released hop hown =>
      subst hop hown
      rw [hasks.eq_of_asking? rfl]
      exact .unlocked ⟨user, rfl⟩
  | overwritten hop htarget =>
      obtain ⟨timestamp, rfl⟩ := hasks.eq_restoreVersionTo htarget
      exact .overwritten ⟨own, user, timestamp, rfl⟩

/-- Nobody but the holder removes a document whose draft is held, and what others leave of
the draft. -/
theorem CarriesOut.left_of_held {desk : Desk} {s : System} (hfiled : s.store.Filed)
    {id user holder : String} {call : Call} {stored : Stored} {op : Operation}
    {arguments : Arguments} {r : Record} {t : Transaction} {d : Variant}
    (h : CarriesOut desk s id user call stored op arguments r t)
    (hd : stored.record.variants.get .draft = some d) (hholder : d.holder = some holder)
    (huser : user ≠ holder) :
    t.deletes = false ∧ ∃ d', r.variants.get .draft = some d' ∧
      DraftLeft user id op arguments id (s.backend.readsBack d) d' := by
  cases h with
  | intro hget hasks hallows heffect hloads =>
      have hd' : (s.backend.handsOut stored).record.variants.get .draft =
          some (s.backend.readsBack d) := by
        rw [Backend.get_handsOut, hd]
        rfl
      have hheld : Handle.isHeldByOther ⟨(s.backend.handsOut stored).record,
          (s.backend.handsOut stored).revision, user⟩ = true :=
        Handle.isHeldByOther_of_holder hd' ((Backend.holder_readsBack ..).trans hholder) huser
      have hid : (s.backend.handsOut stored).record.id = id :=
        (s.backend.id_handsOut stored).trans (hfiled id stored hget)
      have hleft := heffect.left_of_held hallows hd' hheld
      rwa [show Handle.id ⟨(s.backend.handsOut stored).record,
        (s.backend.handsOut stored).revision, user⟩ = id from hid] at hleft

/-- What a commit of a job that is not the holder's makes of the draft. -/
theorem Affects.heldDraft {desk : Desk} {s : System} (hfiled : s.store.Filed) {id holder : String}
    {job : Job} {after? : Option Stored} (h : Affects desk s id job after?) {d : Variant}
    {stored : Stored} (hget : s.store.get? id = some stored)
    (hd : stored.record.variants.get .draft = some d) (hholder : d.holder = some holder)
    (huser : job.user ≠ holder) :
    HeldDraft s.backend.readsBack id holder d (some job)
      (after?.bind fun after => after.record.variants.get .draft) := by
  cases h with
  | untouched =>
      rw [hget, Option.bind_some, hd]
      exact .untouched
  | made hnew =>
      rw [hget] at hnew
      cases hnew
  | @removed user call other op arguments r t hcarries hdeletes =>
      obtain rfl : other = stored := Option.some.inj (hcarries.get?_eq.symm.trans hget)
      rw [(hcarries.left_of_held hfiled hd hholder huser).1] at hdeletes
      cases hdeletes
  | @changed user call other op arguments r t hcarries hkeeps =>
      obtain rfl : other = stored := Option.some.inj (hcarries.get?_eq.symm.trans hget)
      obtain ⟨-, d', hd', hleft⟩ := hcarries.left_of_held hfiled hd hholder huser
      rw [Option.bind_some, hd']
      exact hleft.heldDraft hcarries.asks
  | @written own user call arguments other stage v content now hasks htarget hother hget' hv =>
      obtain rfl : other = stored := Option.some.inj (hget'.symm.trans hget)
      have hd' : (s.backend.handsOut other).record.variants.get .draft =
          some (s.backend.readsBack d) := by
        rw [Backend.get_handsOut, hd]
        rfl
      obtain ⟨d', hwritten, hleft⟩ := DraftLeft.exists_of_write htarget hv hd' content now
      rw [Option.bind_some, hwritten]
      exact hleft.heldDraft hasks

namespace Office

variable {desk : Desk} {o : Office} {id holder : String} {d : Variant}

namespace Current

/-- What a move makes of a draft that is held. -/
theorem heldDraft_step (h : o.Current desk) (htable : desk.table = .standard) (move : Move)
    (hdraft : o.system.store.draft? id = some d) (hholder : d.holder = some holder) :
    HeldDraft o.system.backend.readsBack id holder d ((o.committing? move).map Client.job)
      ((o.step desk move).system.store.draft? id) := by
  cases hc : o.committing? move with
  | none =>
      rw [(sameData_step hc).store, hdraft]
      exact .untouched
  | some c =>
      by_cases huser : c.job.user = holder
      · exact .own huser
      · obtain ⟨stored, hget, hd⟩ := Store.draft?_eq_some_iff.1 hdraft
        exact (h.affects htable hc id).heldDraft h.filed hget hd hholder huser

/-- What no commit takes from a draft that is held, a run of such commits does not take
from it. -/
theorem draft_run (htable : desk.table = .standard) {b : Backend} (kept : Variant → Prop)
    (harmless : Job → Prop) (hheld : ∀ d, kept d → d.holder = some holder)
    (hkept : ∀ d job draft?, kept d → harmless job →
      HeldDraft b.readsBack id holder d (some job) draft? → ∃ d', draft? = some d' ∧ kept d')
    (moves : List Move) (h : o.Current desk) (hb : o.system.backend = b)
    (hdraft : o.system.store.draft? id = some d) (hd : kept d)
    (hcommits : ∀ c ∈ o.commits desk moves, harmless c.job) :
    ∃ d', (o.run desk moves).system.store.draft? id = some d' ∧ kept d' := by
  -- The draft may be another one after each move, so the induction is for all drafts.
  induction moves generalizing o d with
  | nil => exact ⟨d, hdraft, hd⟩
  | cons move moves ih =>
      obtain ⟨hfirst, hrest⟩ := List.forall_mem_append.1 hcommits
      have hstep := h.heldDraft_step htable move hdraft (hheld d hd)
      rw [hb] at hstep
      have hnext : ∃ d', (o.step desk move).system.store.draft? id = some d' ∧ kept d' := by
        generalize (o.step desk move).system.store.draft? id = draft? at hstep
        cases hc : o.committing? move with
        | none =>
            rw [hc] at hstep
            cases hstep with
            | untouched => exact ⟨d, rfl, hd⟩
        | some c =>
            rw [hc] at hstep hfirst
            exact hkept d c.job _ hd (hfirst c (List.mem_singleton.2 rfl)) hstep
      obtain ⟨d', hdraft', hd'⟩ := hnext
      exact ih (h.step htable move) ((backend_step desk o move).trans hb) hdraft' hd' hrest

end Current

end Office

/-! ## What the lock is worth -/

/-- The variants differ at most in what was written, when and by whom. -/
def Variant.IsRewrite (d d' : Variant) : Prop :=
  d' = { d with content := d'.content, modifiedAt := d'.modifiedAt, modifiedBy := d'.modifiedBy }

namespace Variant.IsRewrite

variable {d d' : Variant}

theorem readsBack (h : d.IsRewrite d') (b : Backend) : d.IsRewrite (b.readsBack d') := by
  cases b with
  | whole => exact h
  | stepwise =>
      unfold IsRewrite at h ⊢
      rw [h]
      rfl

theorem withContent (h : d.IsRewrite d') (content : Payload) (user : String) (now : Instant) :
    d.IsRewrite (d'.withContent content user now) := by
  unfold IsRewrite at h ⊢
  rw [h]
  rfl

theorem holder_eq (h : d.IsRewrite d') : d'.holder = d.holder := by
  rw [h]

end Variant.IsRewrite

namespace Office.Current

variable {desk : Desk} {o : Office} {id holder : String} {d : Variant}

/-- As long as nobody unlocks it, a draft stays with its holder. -/
theorem rewrite_run (h : o.Current desk) (htable : desk.table = .standard)
    (hdraft : o.system.store.draft? id = some d) (hholder : d.holder = some holder)
    {moves : List Move}
    (hcommits : ∀ c ∈ o.commits desk moves, c.job.user ≠ holder ∧ ¬ c.job.Unlocks id) :
    ∃ d', (o.run desk moves).system.store.draft? id = some d' ∧ d.IsRewrite d' := by
  refine draft_run htable d.IsRewrite (fun job => job.user ≠ holder ∧ ¬ job.Unlocks id)
    (fun d' hd => hd.holder_eq.trans hholder) (fun d' job draft? hd hjob hleft => ?_) moves h rfl
    hdraft rfl hcommits
  cases hleft with
  | untouched => exact ⟨d', rfl, hd⟩
  | kept => exact ⟨_, rfl, hd.readsBack _⟩
  | own huser => exact absurd huser hjob.1
  | unlocked hunlocks => exact absurd hunlocks hjob.2
  | overwritten hover => exact ⟨_, rfl, (hd.readsBack _).withContent _ _ _⟩

/-- As long as no version is written over it either, it is at most read back. -/
theorem iterate_run (h : o.Current desk) (htable : desk.table = .standard)
    (hdraft : o.system.store.draft? id = some d) (hholder : d.holder = some holder)
    {moves : List Move} (hcommits : ∀ c ∈ o.commits desk moves,
      c.job.user ≠ holder ∧ ¬ c.job.Unlocks id ∧ ¬ c.job.WritesOver id) :
    ∃ n, (o.run desk moves).system.store.draft? id =
      some (o.system.backend.readsBack^[n] d) := by
  have hread : ∀ n, (o.system.backend.readsBack^[n] d).holder = some holder := by
    intro n
    induction n with
    | zero => exact hholder
    | succ n ih => rw [Function.iterate_succ_apply', Backend.holder_readsBack, ih]
  have hrun := draft_run htable (fun d' => ∃ n, d' = o.system.backend.readsBack^[n] d)
    (fun job => job.user ≠ holder ∧ ¬ job.Unlocks id ∧ ¬ job.WritesOver id)
    (fun d' ⟨n, hd⟩ => hd ▸ hread n) (fun d' job draft? ⟨n, hd⟩ hjob hleft => ?_) moves h rfl
    hdraft ⟨0, rfl⟩ hcommits
  · obtain ⟨d', hdraft', n, rfl⟩ := hrun
    exact ⟨n, hdraft'⟩
  · subst hd
    cases hleft with
    | untouched => exact ⟨_, rfl, n, rfl⟩
    | kept => exact ⟨_, rfl, n + 1, (Function.iterate_succ_apply' ..).symm⟩
    | own huser => exact absurd huser hjob.1
    | unlocked hunlocks => exact absurd hunlocks hjob.2.1
    | overwritten hover => exact absurd hover hjob.2.2

end Office.Current

/-- What the holder of a draft may rely on in the runs of an office. Of what others
commit, only what unlocks the draft takes it from the holder, and only what writes a
version over it puts another content in it. -/
structure LocksHold (desk : Desk) (s : System) : Prop where
  /-- One move, in any run. -/
  step : ∀ (moves : List Move) (move : Move) (id holder : String) (d : Variant),
    let o := (Office.opening s).run desk moves
    o.system.store.draft? id = some d → d.holder = some holder →
    HeldDraft s.backend.readsBack id holder d ((o.committing? move).map Client.job)
      ((o.step desk move).system.store.draft? id)
  /-- As long as nobody unlocks it and the holder commits nothing, the draft stays with
  the holder. -/
  held : ∀ (before during : List Move) (id holder : String) (d : Variant),
    let o := (Office.opening s).run desk before
    o.system.store.draft? id = some d → d.holder = some holder →
    (∀ c ∈ o.commits desk during, c.job.user ≠ holder ∧ ¬ c.job.Unlocks id) →
    ∃ d', (o.run desk during).system.store.draft? id = some d' ∧ d.IsRewrite d'
  /-- If no version is written over it either, the draft is as it was, or as it is when
  it was read back some times. -/
  same : ∀ (before during : List Move) (id holder : String) (d : Variant),
    let o := (Office.opening s).run desk before
    o.system.store.draft? id = some d → d.holder = some holder →
    (∀ c ∈ o.commits desk during,
      c.job.user ≠ holder ∧ ¬ c.job.Unlocks id ∧ ¬ c.job.WritesOver id) →
    ∃ n, (o.run desk during).system.store.draft? id = some (s.backend.readsBack^[n] d)

/-- In every run of an office that begins with records under their ids, whatever the
backend and the settings: nobody takes a draft from the user who holds it, except by
unlocking it, and nobody else changes its content, except by writing a version over
it. -/
theorem locks_hold (desk : Desk) (htable : desk.table = .standard) (s : System)
    (hfiled : s.store.Filed) : LocksHold desk s := by
  have hbackend : ∀ moves, ((Office.opening s).run desk moves).system.backend = s.backend :=
    Office.backend_run desk (.opening s)
  refine ⟨fun moves move id holder d => ?_, fun before during id holder d => ?_,
    fun before during id holder d => ?_⟩
  · intro o hdraft hholder
    rw [← hbackend moves]
    exact (Office.current_run htable hfiled moves).heldDraft_step htable move hdraft hholder
  · intro o hdraft hholder hcommits
    exact (Office.current_run htable hfiled before).rewrite_run htable hdraft hholder hcommits
  · intro o hdraft hholder hcommits
    rw [← hbackend before]
    exact (Office.current_run htable hfiled before).iterate_run htable hdraft hholder hcommits

/-- While Alice holds the draft, Bob takes a version of the document. -/
theorem locks_hold_version :
    let step (client : Nat) : Move := .advance client .epoch ""
    let before : List Move :=
      [.enter (.create none .unpublished .null "bob"), .advance 0 .epoch "a",
        .advance 0 .epoch "v", step 0, step 0, .enter (.call "a" "alice" .obtain), step 1, step 1,
        step 1, .advance 1 .epoch "w", step 1, step 1, step 1]
    let during : List Move :=
      .enter (.call "a" "bob" .version) :: List.replicate 6 (step 2)
    let o := (Office.opening {}).run {} before
    let d : Variant := { Variant.make "w" .draft .null "alice" .epoch with holder := some "alice" }
    o.system.store.draft? "a" = some d ∧ (o.commits {} during).length = 1 ∧
      (o.run {} during).system.store.draft? "a" = some d ∧ LocksHold {} {} := by
  intro step before during o d
  have hfiled : Store.Filed ({} : System).store := Store.filed_of_empty rfl
  exact ⟨by decide +kernel, by decide +kernel, by decide +kernel, locks_hold {} rfl {} hfiled⟩

/-- While Alice holds the draft with what she wrote, Bob writes a version over it. -/
theorem held_draft_overwritten :
    let step (client : Nat) : Move := .advance client .epoch ""
    let before : List Move :=
      [.enter (.create none .unpublished .null "bob"), .advance 0 .epoch "a",
        .advance 0 .epoch "v", step 0, step 0] ++
      (.enter (.call "a" "bob" .version) :: List.replicate 6 (step 1)) ++
      [.enter (.call "a" "alice" .obtain), step 2, step 2, step 2, .advance 2 .epoch "w", step 2,
        step 2, step 2] ++
      (.enter (.call "a" "alice" (.update (.ofJson (.string "alice")))) ::
        List.replicate 6 (step 3))
    let restore : Job := .call "a" "bob" (.restoreVersionTo .epoch ⟨"a", .draft⟩)
    let during : List Move := .enter restore :: List.replicate 6 (step 4)
    let o := (Office.opening {}).run {} before
    let d : Variant := { Variant.make "w" .draft (.ofJson (.string "alice")) "alice" .epoch with
      holder := some "alice" }
    o.system.store.draft? "a" = some d ∧ (o.commits {} during).map Client.job = [restore] ∧
      (o.run {} during).system.store.draft? "a" = some (d.withContent .null "bob" .epoch) := by
  decide +kernel

end Editorial
