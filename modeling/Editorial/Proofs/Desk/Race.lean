import Editorial.Proofs.Desk.Committing
import Editorial.Proofs.Hints.Lock
import Editorial.Proofs.Hints.Pending
import Editorial.Proofs.Pipeline.Contents
import Editorial.Proofs.Store.Exact
import Editorial.Proofs.Store.Nesting

/-!
# Calls of which one wins

To obtain a draft and to publish have in common that who carries them out keeps others
from it: the draft is in somebody's hands then, the document is published. So of many
users who want the same of a document, those who are late find it shut.

Some of them were told before that it is open, and have prepared the same commit. That
commit meets a conflict, which costs an attempt; but in the next one they load the
document as it is by then. As there are at least two attempts, nobody gets to run out of
them.

Whoever loses is answered by the system as it was at first, and from some step on as the
winner left it.

## Main results

* `Prepares.put_of_race` — what those are about to commit who found the document open.
* `denied_of_leads_process` — those who commit nothing are denied.
-/

namespace Editorial

/-! ## Races -/

/-- The user has carried the operation out on the record. -/
inductive Record.WonBy (user : String) : Operation → Record → Prop
  | obtained {r : Record} {d : Variant} (hd : r.variants.get .draft = some d)
      (hholder : d.holder = some user) : WonBy user .obtain r
  | published {r : Record} (hp : r.variants.has .published = true) : WonBy user .publish r

/-- All users make the same call about the record, which only one of them can win. -/
inductive Race (r : Record) (users : List String) : Call → Operation → Prop
  | obtain (hd : r.variants.has .draft = false) (hdistinct : users.Nodup) :
      Race r users .obtain .obtain
  | publish (hu : r.variants.has .unpublished = true) (hp : r.variants.has .published = false)
      (hq : r.pending? = none) : Race r users (.publish none) .publish

theorem Record.WonBy.handsOut {b : Backend} {stored : Stored} {user : String} {op : Operation}
    (h : stored.record.WonBy user op) : (b.handsOut stored).record.WonBy user op := by
  cases h with
  | obtained hd hholder =>
      refine .obtained (d := b.readsBack _) (by rw [b.get_handsOut, hd]; rfl) ?_
      cases b <;> exact hholder
  | published hp => exact .published (by rw [b.has_handsOut, hp])

/-- A document that one user has won is shut to others. -/
theorem Record.WonBy.denies {h : Handle} {winner : String} {op : Operation}
    (hwon : h.record.WonBy winner op) (huser : op = .obtain → h.user ≠ winner) :
    (Hints.ofHandle h).allows op none = false := by
  cases hwon with
  | obtained hd hholder =>
      rw [Hints.allows_eq _ rfl]
      exact Handle.allows_eq_false_of_isHeldByOther
        (Handle.isHeldByOther_of_holder hd hholder (huser rfl)) rfl
  | published hp =>
      rw [Hints.allows_eq _ rfl]
      simp [Handle.allows, Handle.isPublishable, hp]

namespace Race

variable {r : Record} {users : List String} {call : Call} {op : Operation}

theorem isReadOnly_eq_false (race : Race r users call op) : call.isReadOnly = false := by
  cases race <;> rfl

theorem asks (race : Race r users call op) {op' : Operation} {arguments : Arguments}
    (h : call.Asks op' arguments) : op' = op ∧ arguments.request = none := by
  obtain ⟨-, begun, now, hturn⟩ := h
  cases race <;> cases hturn <;> exact ⟨rfl, rfl⟩

theorem isUsable (race : Race r users call op) : call.isUsable = true := by
  cases race <;> rfl

theorem exclusive (race : Race r users call op) : op = .obtain ∨ op = .publish := by
  cases race
  · exact Or.inl rfl
  · exact Or.inr rfl

/-- The document is open to everybody. -/
theorem allows {stored : Stored} (race : Race stored.record users call op)
    (hsound : stored.record.IsSound) (b : Backend) (user : String) :
    (Hints.ofHandle ⟨(b.handsOut stored).record, (b.handsOut stored).revision, user⟩).allows op
      none = true := by
  have hany := Handle.any_of_isSound
    (h := ⟨(b.handsOut stored).record, (b.handsOut stored).revision, user⟩)
    (b.isSound_handsOut hsound)
  cases race with
  | obtain hd =>
      rw [Hints.allows_eq _ rfl, Handle.allows, hany, Bool.true_and]
      have hnone : (b.handsOut stored).record.variants.get .draft = none := by
        rw [← Option.not_isSome_iff_eq_none]
        exact Bool.eq_false_iff.1 ((b.has_handsOut stored .draft).trans hd)
      simp [Handle.isHeldByOther, Handle.holder?, Handle.variant?, hnone]
  | publish hu hp hq =>
      have hundecided : (b.handsOut stored).record.pending? = none := by
        unfold Record.pending?
        rw [b.requests_handsOut]
        exact hq
      rw [Hints.allows_eq _ rfl, Handle.allows, hany, Bool.true_and]
      simp [Handle.isPublishable, Handle.isUndecided, hu, hp, hundecided]

/-- Different users who want to obtain the draft are rivals. -/
theorem ne_of_getElem? (race : Race r users call op) (hop : op = .obtain) {i j : Nat}
    {user user' : String} (hi : users[i]? = some user) (hj : users[j]? = some user')
    (hne : i ≠ j) : user ≠ user' := by
  cases race with
  | publish => cases hop
  | obtain hd hdistinct =>
      rintro rfl
      have hlt := (List.getElem?_eq_some_iff.1 hi).1
      exact hne ((List.getElem?_inj hlt hdistinct).1 (hi.trans hj.symm))

end Race

/-- What the operation leaves of the document is the winner's. -/
theorem Effect.wonBy {ctx : Context} {h : Handle} {op : Operation} {path : List Taken} {r : Record}
    {t : Transaction} (he : Effect ctx h op path r t) (hop : op = .obtain ∨ op = .publish) :
    t.deletes = false ∧ t.staged = [] ∧ r.location = h.record.location ∧ r.WonBy h.user op := by
  have hput : ∀ (r : Record) (v : Variant),
      (r.putVariant .draft (some v)).variants.get .draft = some v := fun _ _ => rfl
  cases he with
  | claim | draft | draftPublished => exact ⟨rfl, rfl, rfl, .obtained (hput _ _) rfl⟩
  | publish => exact ⟨rfl, rfl, rfl, .published (by simp [Record.putVariant, Variants.has])⟩
  | file hkind => rcases hop with rfl | rfl <;> cases hkind
  | _ => rcases hop with hop | hop <;> cases hop

/-- Nothing stands in the way of who finds the document open. -/
theorem Outcome.exists_effect {ctx : Context} {h : Handle} {op : Operation} {path : List Taken}
    {result : Option (Except Failure Unit × Work)} (ho : Outcome ctx h op path result)
    (hop : op = .obtain ∨ op = .publish) :
    ∃ r t, result = some (.ok (), ⟨h.withRecord r, t⟩) ∧ Effect ctx h op path r t := by
  have hfree : ∀ {f}, ¬ Obstacle ctx h (· ∈ path) op f := by
    intro f hobstacle
    rcases hop with rfl | rfl <;> cases hobstacle with
    | date hop => cases hop
    | destination hop | newName hop | folderUnknown hop | folderClosed hop | nameTaken hop
    | timestamp hop | versionMissing hop => simp at hop
  cases ho with
  | success he => exact ⟨_, _, rfl, he⟩
  | obstacle ho => exact absurd ho hfree
  | unanswered hop' => rcases hop with rfl | rfl <;> simp at hop'
  | stranded hop' | undone hop' | overflow hop' | unloaded hop' =>
      subst hop'
      simp at hop

/-! ## Answers in turn -/

/-- The steps were answered by the system `s`, and from some step on as `late` has it. -/
def System.AnswersUntil (s : System) (late : Taken → Prop) (path : List Taken) : Prop :=
  ∃ early rest, path = early ++ rest ∧ (∀ t ∈ early, t.AnsweredBy s) ∧ ∀ t ∈ rest, late t

namespace System.AnswersUntil

variable {s : System} {late : Taken → Prop} {first second path : List Taken}

theorem of_answered (h : ∀ t ∈ path, t.AnsweredBy s) : s.AnswersUntil late path :=
  ⟨path, [], (List.append_nil path).symm, h, List.forall_mem_nil _⟩

theorem of_late (h : ∀ t ∈ path, late t) : s.AnswersUntil late path :=
  ⟨[], path, rfl, List.forall_mem_nil _, h⟩

theorem append (h : s.AnswersUntil late first) (hlate : ∀ t ∈ second, late t) :
    s.AnswersUntil late (first ++ second) := by
  obtain ⟨early, rest, rfl, hearly, hrest⟩ := h
  exact ⟨early, rest ++ second, List.append_assoc .., hearly,
    List.forall_mem_append.2 ⟨hrest, hlate⟩⟩

theorem answered_or_late (h : s.AnswersUntil late path) : ∀ t ∈ path, t.AnsweredBy s ∨ late t := by
  obtain ⟨early, rest, rfl, hearly, hrest⟩ := h
  exact List.forall_mem_append.2
    ⟨fun t hm => Or.inl (hearly t hm), fun t hm => Or.inr (hrest t hm)⟩

/-- Nobody was late yet in the first part, or all of the second part is late. -/
theorem split (h : s.AnswersUntil late (first ++ second)) :
    ((∀ t ∈ first, t.AnsweredBy s) ∧ s.AnswersUntil late second) ∨
      ((∃ t ∈ first, late t) ∧ s.AnswersUntil late first ∧ ∀ t ∈ second, late t) := by
  obtain ⟨early, rest, he, hearly, hrest⟩ := h
  rcases List.append_eq_append_iff.1 he with ⟨middle, rfl, rfl⟩ | ⟨middle, rfl, rfl⟩
  · obtain ⟨hfirst, hmiddle⟩ := List.forall_mem_append.1 hearly
    exact Or.inl ⟨hfirst, middle, rest, rfl, hmiddle, hrest⟩
  · obtain ⟨hmiddle, hsecond⟩ := List.forall_mem_append.1 hrest
    cases middle with
    | nil =>
        rw [List.append_nil]
        exact Or.inl ⟨hearly, of_late hsecond⟩
    | cons t middle =>
        exact Or.inr ⟨⟨t, List.mem_append_right _ (List.mem_cons_self ..),
          hmiddle t (List.mem_cons_self ..)⟩, ⟨early, _, rfl, hearly, hmiddle⟩, hsecond⟩

theorem of_append_left (h : s.AnswersUntil late (first ++ second)) :
    s.AnswersUntil late first := by
  rcases h.split with ⟨hfirst, -⟩ | ⟨-, hfirst, -⟩
  · exact of_answered hfirst
  · exact hfirst

theorem of_append_right (h : s.AnswersUntil late (first ++ second)) :
    s.AnswersUntil late second := by
  rcases h.split with ⟨-, hsecond⟩ | ⟨-, -, hsecond⟩
  · exact hsecond
  · exact of_late hsecond

end System.AnswersUntil

/-! ## Those who lose -/

/-- Before the race the document `id` is in its place in the system `s`, as `stored`,
and the operation is open to the user; what is answered to those who are `late` shuts it. -/
structure System.Shuts (s : System) (late : Taken → Prop) (id user : String) (op : Operation)
    (stored : Stored) : Prop where
  get : s.store.get? id = some stored
  filed : stored.record.id = id
  spread : s.store.Spread
  sound : stored.record.IsSound
  readable : s.backend.canRead stored.record = true
  exclusive : op = .obtain ∨ op = .publish
  opens : (Hints.ofHandle ⟨(s.backend.handsOut stored).record, (s.backend.handsOut stored).revision,
    user⟩).allows op none = true
  shut : ∀ answer, late ⟨.load id, answer⟩ → ∃ loaded, answer = .ok (some loaded) ∧
    (Hints.ofHandle ⟨loaded.record, loaded.revision, user⟩).allows op none = false
  decides : ∀ changes answer, late ⟨.commit changes, answer⟩ → ∃ verdict, answer = .ok verdict

namespace Desk

variable {desk : Desk} {s : System} {late : Taken → Prop} {id user : String} {op : Operation}
  {stored : Stored} {arguments : Arguments}

section

variable (hs : s.Shuts late id user op stored) (htable : desk.table = .standard)
  (hrequest : arguments.request = none)
include hs

/-- Who loads the document in time is told what is stored, and who is late finds it
shut. -/
theorem load_cases_of_race {answer : Except Failure (Option Stored)}
    (h : Taken.AnsweredBy s ⟨.load id, answer⟩ ∨ late ⟨.load id, answer⟩) :
    answer = .ok (some (s.backend.handsOut stored)) ∨
      late ⟨.load id, answer⟩ ∧ ∃ loaded, answer = .ok (some loaded) ∧
        (Hints.ofHandle ⟨loaded.record, loaded.revision, user⟩).allows op none = false := by
  refine h.imp (fun hanswered => ?_) fun hlate => ⟨hlate, hs.shut answer hlate⟩
  exact hanswered.trans (Backend.load_of_canRead hs.get hs.readable)

include hrequest in
/-- What those are about to commit who found the document open. -/
theorem Prepares.put_of_race {path : List Taken} {changes : List Change} {t : Transaction}
    (hp : desk.Prepares id user op arguments path changes t)
    (hanswered : ∀ t ∈ path, t.AnsweredBy s ∨ late t) :
    ∃ r, changes = [.put r (some stored.revision)] ∧ r.id = id ∧
      r.location = stored.record.location ∧ s.backend.canRead r = true ∧ r.WonBy user op := by
  cases hp with
  | @loaded loaded path r _ _ hallows heffect hchanges =>
      rw [hrequest] at hallows
      rcases load_cases_of_race hs (hanswered _ (List.mem_cons_self ..)) with
        he | ⟨-, other, he, hdenied⟩
      · cases he
        obtain ⟨hkeeps, hstaged, hlocation, hwon⟩ := heffect.wonBy hs.exclusive
        rcases changes_cases hchanges with ⟨hdeletes, -⟩ | ⟨-, -, rfl⟩
        · rw [show t.deletes = true from hdeletes] at hkeeps
          cases hkeeps
        · refine ⟨r, ?_, ?_, ?_, ?_, hwon⟩
          · rw [hstaged, Backend.revision_handsOut]
          · exact heffect.id_eq.trans ((s.backend.id_handsOut stored).trans hs.filed)
          · exact hlocation.trans (s.backend.location_handsOut stored)
          · refine Backend.canRead_iff.2 (heffect.allContents_record
              (Backend.canRead_iff.1 (Backend.canRead_handsOut hs.readable)) ?_)
            rintro rfl
            exact absurd hs.exclusive (by simp)
      · cases he
        rw [hallows] at hdenied
        cases hdenied

include htable hrequest in
/-- Before the commit an operation is denied, or it gets there. -/
theorem denied_of_leads_prepare {path : List Taken}
    {result : Option (Except Failure (List Change × Transaction))}
    (hl : (desk.prepare id user op arguments).run.Leads path result)
    (hanswered : ∀ t ∈ path, t.AnsweredBy s ∨ late t) :
    ((∃ t ∈ path, late t) ∧ result = some (.error (.denied op))) ∨
      ∃ prepared, result = some (.ok prepared) := by
  rw [run_prepare, Process.leads_map] at hl
  obtain ⟨result', hread, rfl⟩ := hl
  rw [run_read, htable, Process.leads_ask] at hread
  obtain ⟨answer, path', rfl, hrest⟩ := hread
  rcases load_cases_of_race hs (hanswered _ (List.mem_cons_self ..)) with
    rfl | ⟨hlate, loaded, rfl, hdenied⟩
  · obtain ⟨fired?, hfired, rfl⟩ := (Process.leads_map _ _ _ _).1 hrest
    have ha := hs.opens
    rw [← hrequest] at ha
    obtain ⟨r, t, rfl, heffect⟩ :=
      (Table.outcome_of_leads_fire ha hfired).exists_effect hs.exclusive
    have hcheck : r.check = .ok () := (Record.check_eq_ok_iff r).2
      (heffect.isSound ha (s.backend.isSound_handsOut hs.sound))
    have hchanges : Desk.changes id ⟨⟨r, (s.backend.handsOut stored).revision, user⟩, t⟩ =
        .ok (.put r (some (s.backend.handsOut stored).revision) :: t.staged) :=
      changes_eq (heffect.wonBy hs.exclusive).1 hcheck
    refine Or.inr ⟨(.put r (some (s.backend.handsOut stored).revision) :: t.staged, t), ?_⟩
    simp only [Option.map_some, Except.map, Except.bind, Handle.withRecord, hchanges]
  · rw [← hrequest] at hdenied
    obtain ⟨fired?, hfired, rfl⟩ := (Process.leads_map _ _ _ _).1 hrest
    rw [Table.on_fire_denied hdenied, Process.leads_done] at hfired
    obtain ⟨rfl, rfl⟩ := hfired
    exact Or.inl ⟨⟨_, List.mem_cons_self .., hlate⟩, rfl⟩

include htable hrequest in
/-- Who has committed nothing in an attempt was late, and was denied or met a conflict. -/
theorem lost_of_leads_attempt {first second : List Taken}
    {result : Option (Except Failure (Attempt Transaction))}
    (hl : (desk.attempt id user op arguments).run.Leads first result)
    (hidle : ∀ t ∈ first, t.IsIdle) (hturn : s.AnswersUntil late (first ++ second)) :
    (∃ t ∈ first, late t) ∧ (result = some (.error (.denied op)) ∨
      result = some (.ok .conflict) ∧ ∀ t ∈ second, late t) := by
  have hanswered := hturn.of_append_left.answered_or_late
  cases attemptEnds_of_leads htable hl with
  | broken hprepare =>
      rcases denied_of_leads_prepare hs htable hrequest hprepare hanswered with
        ⟨-, he⟩ | ⟨prepared, he⟩ <;> cases he
  | stopped hprepare =>
      rcases denied_of_leads_prepare hs htable hrequest hprepare hanswered with
        ⟨hlate, he⟩ | ⟨prepared, he⟩ <;> cases he
      exact ⟨hlate, Or.inl rfl⟩
  | @failed path changes t failure hp =>
      have hverdict : ∃ verdict, Except.error failure = .ok verdict :=
        (hanswered ⟨.commit changes, .error failure⟩ (by simp)).elim (fun he => ⟨_, he⟩)
          (hs.decides changes _)
      obtain ⟨verdict, he⟩ := hverdict
      cases he
  | @lost path changes t other hp =>
      obtain ⟨r, rfl, hid, hlocation, -⟩ := hp.put_of_race hs hrequest fun t hm =>
        hanswered t (List.mem_append_left _ hm)
      rcases hturn.split with ⟨hearly, -⟩ | ⟨hlate, -, hsecond⟩
      · have hverdict : Except.ok (.conflict other) = .ok (s.backend.commit s.store _).1 :=
          hearly (.commit _ (.conflict other)) (List.mem_append_right _ (List.mem_singleton_self _))
        rw [Store.commit_replace hs.spread s.backend (hid ▸ hs.get) hlocation] at hverdict
        cases hverdict
      · exact ⟨hlate, Or.inr ⟨rfl, hsecond⟩⟩
  | @settled path changes t now hp =>
      exact absurd rfl (hidle (.commit changes .committed) (by simp [settling]))

include hrequest in
/-- Who is late from the beginning gets to no commit. -/
theorem Prepares.false_of_late {path : List Taken} {changes : List Change} {t : Transaction}
    (hp : desk.Prepares id user op arguments path changes t) (hlate : ∀ t ∈ path, late t) :
    False := by
  cases hp with
  | loaded hallows heffect hchanges =>
      obtain ⟨loaded, he, hdenied⟩ := hs.shut _ (hlate _ (List.mem_cons_self ..))
      cases he
      rw [← hrequest, hallows] at hdenied
      cases hdenied

include htable hrequest in
/-- He is denied in the first attempt. -/
theorem denied_of_leads_attempt_late {path : List Taken}
    {result : Option (Except Failure (Attempt Transaction))}
    (hl : (desk.attempt id user op arguments).run.Leads path result) (hlate : ∀ t ∈ path, late t) :
    result = some (.error (.denied op)) := by
  have hanswered : ∀ t ∈ path, t.AnsweredBy s ∨ late t := fun t hm => Or.inr (hlate t hm)
  cases attemptEnds_of_leads htable hl with
  | broken hprepare =>
      rcases denied_of_leads_prepare hs htable hrequest hprepare hanswered with
        ⟨-, he⟩ | ⟨prepared, he⟩ <;> cases he
  | stopped hprepare =>
      rcases denied_of_leads_prepare hs htable hrequest hprepare hanswered with
        ⟨-, he⟩ | ⟨prepared, he⟩ <;> cases he
      rfl
  | failed hp | lost hp | settled hp =>
      exact (hp.false_of_late hs hrequest fun t hm => hlate t (List.mem_append_left _ hm)).elim

/-! ## Attempts in turn -/

section

variable {exhausted : Failure} {milliseconds : Nat}

include htable hrequest in
theorem denied_of_leads_runFrom_late {left n : Nat} {path : List Taken}
    {result : Option (Except Failure Transaction)}
    (hl : Process.Leads (ExceptT.run (Retry.runFrom (Process.pause milliseconds)
      (fun _ => desk.attempt id user op arguments) exhausted left n)) path result)
    (hlate : ∀ t ∈ path, late t) : result = some (.error (.denied op)) := by
  have hdenied : ∀ {path result}, (desk.attempt id user op arguments).run.Leads path result →
      (∀ t ∈ path, late t) → result = some (.error (.denied op)) :=
    denied_of_leads_attempt_late hs htable hrequest
  cases left with
  | zero | succ left =>
      first | rw [run_runFrom_zero, Process.leads_bind] at hl
            | rw [run_runFrom_succ, Process.leads_bind] at hl
      rcases hl with ⟨first, second, attempt?, rfl, hattempt, hend⟩ | ⟨rfl, hattempt⟩
      · cases hdenied hattempt fun t hm => hlate t (List.mem_append_left _ hm)
        exact ((Process.leads_done _ _ _).1 hend).2
      · cases hdenied hattempt hlate

include htable hrequest in
/-- One more attempt is enough. -/
theorem denied_of_leads_runFrom {left n : Nat} {path : List Taken}
    {result : Option (Except Failure Transaction)}
    (hl : Process.Leads (ExceptT.run (Retry.runFrom (Process.pause milliseconds)
      (fun _ => desk.attempt id user op arguments) exhausted (left + 1) n)) path result)
    (hidle : ∀ t ∈ path, t.IsIdle) (hturn : s.AnswersUntil late path) :
    (∃ t ∈ path, late t) ∧ result = some (.error (.denied op)) := by
  rw [run_runFrom_succ, Process.leads_bind] at hl
  rcases hl with ⟨first, second, attempt?, rfl, hattempt, hend⟩ | ⟨rfl, hattempt⟩
  · obtain ⟨⟨t, hm, ht⟩, hlost⟩ := lost_of_leads_attempt hs htable hrequest hattempt
      (List.forall_mem_append.1 hidle).1 hturn
    refine ⟨⟨t, List.mem_append_left _ hm, ht⟩, ?_⟩
    rcases hlost with he | ⟨he, hlate⟩ <;> cases he
    · exact ((Process.leads_done _ _ _).1 hend).2
    · obtain ⟨u, rest, rfl, hrest⟩ := (Process.leads_ask _ _ _ _).1 hend
      exact denied_of_leads_runFrom_late hs htable hrequest hrest
        fun t hm => hlate t (List.mem_cons_of_mem _ hm)
  · obtain ⟨-, he | ⟨he, -⟩⟩ := lost_of_leads_attempt hs htable hrequest hattempt hidle
      (show s.AnswersUntil late (path ++ []) by rwa [List.append_nil]) <;> cases he

end

include htable hrequest in
/-- An operation that commits nothing is denied. -/
theorem denied_of_leads_execute (husable : desk.settings.IsUsable) (hop : op.isReadOnly = false)
    {path : List Taken} {result : Option (Except Failure Transaction)}
    (hl : (desk.execute id user op arguments).run.Leads path result)
    (hidle : ∀ t ∈ path, t.IsIdle) (hturn : s.AnswersUntil late path) :
    (∃ t ∈ path, late t) ∧ result = some (.error (.denied op)) := by
  obtain ⟨left, hleft⟩ : ∃ left, desk.settings.retry.attempts - 1 = left + 1 := by
    have hretries := husable.retries
    refine ⟨desk.settings.retry.attempts - 2, ?_⟩
    simp only [Retry.attempts, Settings.retry, UInt32.size]
    omega
  unfold execute at hl
  rw [hop, if_neg Bool.false_ne_true] at hl
  change Process.Leads (ExceptT.run (Retry.runFrom (Process.pause _)
    (fun _ => desk.attempt id user op arguments) _ (desk.settings.retry.attempts - 1) 1)) _ _ at hl
  rw [hleft] at hl
  exact denied_of_leads_runFrom hs htable hrequest hl hidle hturn

end

/-! ## Calls -/

section

variable (hs : s.Shuts late id user op stored) (htable : desk.table = .standard)
  (husable : desk.settings.IsUsable)
include hs htable husable

theorem Mutates.denied {blank : Prop} {asks : Operation → Arguments → Prop} {f : Flow Reply}
    (h : Mutates desk id user blank asks f) (hblank : ¬ blank)
    (hasks : ∀ {op' arguments}, asks op' arguments → op' = op ∧ arguments.request = none)
    {path : List Taken} {result : Option (Except Failure Reply)} (hl : f.run.Leads path result)
    (hidle : ∀ t ∈ path, t.IsIdle) (hturn : s.AnswersUntil late path) :
    (∃ t ∈ path, late t) ∧ result = some (.error (.denied op)) := by
  induction h generalizing path with
  | refused hblank' hrun => exact absurd hblank' hblank
  | @now next hnext ih =>
      rw [Flow.run_bind] at hl
      obtain ⟨begun, path', rfl, hl'⟩ := (Process.leads_ask _ _ _ _).1 hl
      have hturn' : s.AnswersUntil late ([.now begun] ++ path') := hturn
      obtain ⟨⟨t, hm, ht⟩, he⟩ := ih begun hl' (fun t hm => hidle t (List.mem_cons_of_mem _ hm))
        hturn'.of_append_right
      exact ⟨⟨t, List.mem_cons_of_mem _ hm, ht⟩, he⟩
  | @execute op' arguments finish hop hasks' hends =>
      obtain ⟨rfl, hrequest⟩ := hasks hasks'
      rw [Flow.run_bind, Process.leads_bind] at hl
      rcases hl with ⟨first, second, t?, rfl, hexecute, hend⟩ | ⟨rfl, hexecute⟩
      · obtain ⟨⟨t, hm, ht⟩, he⟩ := denied_of_leads_execute hs htable hrequest husable hop hexecute
          (List.forall_mem_append.1 hidle).1 hturn.of_append_left
        cases he
        exact ⟨⟨t, List.mem_append_left _ hm, ht⟩, ((Process.leads_done _ _ _).1 hend).2⟩
      · obtain ⟨-, he⟩ :=
          denied_of_leads_execute hs htable hrequest husable hop hexecute hidle hturn
        cases he

/-- Who commits nothing was late and is denied. -/
theorem denied_of_leads_process {r : Record} {users : List String} {call : Call}
    (race : Race r users call op) {path : List Taken} {result : Option (Except Failure Product)}
    (hl : (desk.process (.call id user call)).Leads path result) (hidle : ∀ t ∈ path, t.IsIdle)
    (hturn : s.AnswersUntil late path) :
    (∃ t ∈ path, late t) ∧ result = some (.error (.denied op)) := by
  rw [process_call] at hl
  obtain ⟨result', hanswer, rfl⟩ := (Process.leads_map _ _ _ _).1 hl
  have hblank : ¬ call.isUsable = false := by
    rw [race.isUsable]
    exact nofun
  obtain ⟨hlate, rfl⟩ := (mutates_answer race.isReadOnly_eq_false).denied hs htable husable hblank
    race.asks hanswer hidle hturn
  exact ⟨hlate, rfl⟩

end

/-- What those are about to commit who have been told that the document is open. -/
theorem put_of_reaches (hs : s.Shuts late id user op stored) (htable : desk.table = .standard)
    {r : Record} {users : List String} {call : Call} (race : Race r users call op)
    {journal : List Taken} {changes : List Change}
    {next : Except Failure Verdict → Process (Except Failure Product)}
    (hr : (desk.process (.call id user call)).Reaches journal (.ask (.commit changes) next))
    (hanswered : ∀ t ∈ journal, t.AnsweredBy s ∨ late t) :
    ∃ r, changes = [.put r (some stored.revision)] ∧ r.id = id ∧
      r.location = stored.record.location ∧ s.backend.canRead r = true ∧ r.WonBy user op := by
  obtain ⟨opening, op', arguments, lost, last, t, rfl, -, hasks, hprepares, -⟩ :=
    turnsTo_of_reaches htable hr
  obtain ⟨rfl, hrequest⟩ := race.asks hasks
  exact hprepares.put_of_race hs hrequest fun step hm =>
    hanswered step (List.mem_append_right _ (List.mem_append_right _ hm))

end Desk

end Editorial
