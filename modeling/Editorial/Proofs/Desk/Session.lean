import Editorial.Proofs.Desk.Contents
import Editorial.Proofs.Desk.Replacing
import Editorial.Proofs.Hints.Pending

/-!
# Editing sessions

An editor takes a draft of a document up, writes it any number of times, perhaps takes it
up again in between, and closes it: the draft is committed or thrown away. The session is
a transaction on the unpublished content. Until it is closed the draft carries what was
written last and the rest of the record stays what it was when the session began, which
is the invariant below: `Underlies` for the rest, `Drafting` for both. Each call takes the
document from the store and puts it back, so in a table the contents are read again from
their texts each time.

A document that is only published has nothing for a draft to fall back to. Taking it up
makes an unpublished variant with the published content first, and that variant stays
whichever way the session is closed.

## Main results

* `Drafting.edit`, `Drafting.run` — an edit, and any number of them, go on with a session.
* `editing_is_transactional` — what a session leaves.
-/

namespace Editorial

/-! ## Calls in turn -/

/-- Runs calls of one user about one document in turn, each of them alone and with readings
of its own, and answers what came of each. -/
def System.inTurn (desk : Desk) (id user : String) (s : System) :
    List (Call × Readings) → List (Option (Except Failure Product)) × System
  | [] => ([], s)
  | (call, readings) :: rest =>
      let ran := s.runAt readings (desk.process (.call id user call))
      let after := inTurn desk id user ran.2 rest
      (ran.1 :: after.1, after.2)

/-- A document was handed back. -/
def HandsBack (result : Option (Except Failure Product)) : Prop :=
  ∃ d, result = some (.ok (.reply (.document d)))

namespace System

variable {desk : Desk} {id user : String} {s : System}

theorem inTurn_append (calls calls' : List (Call × Readings)) :
    s.inTurn desk id user (calls ++ calls') =
      ((s.inTurn desk id user calls).1 ++
          ((s.inTurn desk id user calls).2.inTurn desk id user calls').1,
        ((s.inTurn desk id user calls).2.inTurn desk id user calls').2) := by
  induction calls generalizing s with
  | nil => rfl
  | cons call rest ih =>
      obtain ⟨call, readings⟩ := call
      simp only [List.cons_append, inTurn, ih]

end System

/-- What an editor does in the course of a session. -/
inductive Edit where
  /-- Take the draft up again. -/
  | obtain
  /-- Write the draft. -/
  | update (content : Payload)
deriving DecidableEq

namespace Edit

/-- The call that makes the edit. -/
def call : Edit → Call
  | obtain => .obtain
  | update content => .update content

/-- The content of the draft after an edit. -/
def apply (c : Payload) : Edit → Payload
  | obtain => c
  | update content => content

/-- The content of the draft after edits in turn. -/
def applyAll (c : Payload) (edits : List Edit) : Payload := edits.foldl apply c

end Edit

/-! ## Records without a draft -/

namespace Record

/-- The content that a draft starts with. -/
def workingContent? (r : Record) : Option Payload :=
  ((r.variants.get .unpublished).or (r.variants.get .published)).map Variant.content

variable {r : Record} {stage : Stage} {v? w? : Option Variant}

/-- A sound record without a draft has a content that one can start with. -/
theorem exists_workingContent? (hsound : r.IsSound) (hdraft : r.variants.get .draft = none) :
    ∃ c, r.workingContent? = some c := by
  refine Option.isSome_iff_exists.1 ?_
  unfold workingContent?
  rw [Option.isSome_map, Option.isSome_or, Bool.or_eq_true]
  rcases hsound.backed.1 with hhas | hhas | hhas
  · rw [Variants.has, hdraft] at hhas
    cases hhas
  · exact Or.inl hhas
  · exact Or.inr hhas

theorem putVariant_putVariant : (r.putVariant stage v?).putVariant stage w? =
    r.putVariant stage w? := by
  cases stage <;> rfl

/-- Taking a draft away that was put beside the unpublished variant. -/
theorem putVariant_unpublished_draft :
    ((r.putVariant .draft v?).putVariant .unpublished w?).putVariant .draft none =
      (r.putVariant .draft none).putVariant .unpublished w? := rfl

theorem putVariant_draft_none (h : r.variants.get .draft = none) : r.putVariant .draft none = r := by
  have hvariants : r.variants.put .draft none = r.variants := by
    refine Variants.ext fun stage => ?_
    rw [Variants.get_put]
    split
    · rename_i hstage
      rw [hstage, h]
    · rfl
  show { r with variants := r.variants.put .draft none } = r
  rw [hvariants]

end Record

/-- `r` is what a session of `user` on the record `before` works on, apart from the draft:
the record itself, or, if it is published only, the record with an unpublished variant that
was made from the published one. -/
inductive Underlies (b : Backend) (user : String) (before : Record) : Record → Prop
  | own {kept : Record} (hu : before.variants.has .unpublished = true)
      (hkept : b.RecallsRecord before kept) : Underlies b user before kept
  | added {kept : Record} {p u : Variant} (hu : before.variants.get .unpublished = none)
      (hp : before.variants.get .published = some p) (hkept : b.RecallsRecord before kept)
      (hcontent : b.Recalls p.content u.content) (hmade : u.createdBy = user)
      (hfree : u.holder = none) :
      Underlies b user before (kept.putVariant .unpublished (some u))

namespace Underlies

variable {b : Backend} {user : String} {before kept : Record}

/-- It underlies the session still when it was put in and is handed out. -/
theorem step (h : Underlies b user before kept) : Underlies b user before (b.readsRecord kept) := by
  cases h with
  | own hu hkept => exact .own hu hkept.step
  | added hu hp hkept hcontent hmade hfree =>
      rw [b.readsRecord_putVariant]
      refine .added hu hp hkept.step ?_ ?_ ((b.holder_readsBack _).trans hfree)
      · rw [Backend.content_readsBack]
        exact hcontent.step
      · cases b <;> exact hmade

theorem get_draft (h : Underlies b user before kept) (hdraft : before.variants.get .draft = none) :
    kept.variants.get .draft = none := by
  have hnone : ∀ {kept : Record}, b.RecallsRecord before kept →
      kept.variants.get .draft = none := by
    intro kept hkept
    rcases hkept.get .draft with ⟨-, hnone⟩ | ⟨v, v', hv, -⟩
    · exact hnone
    · rw [hdraft] at hv
      cases hv
  cases h with
  | own hu hkept => exact hnone hkept
  | added hu hp hkept =>
      rw [Record.get_putVariant, if_neg (by decide)]
      exact hnone hkept

/-- There is an unpublished variant. It recalls the one that was there before. -/
theorem exists_unpublished (h : Underlies b user before kept) :
    ∃ u, kept.variants.get .unpublished = some u ∧
      ∀ u₀, before.variants.get .unpublished = some u₀ → b.RecallsVariant u₀ u := by
  cases h with
  | own hu hkept =>
      obtain ⟨u₀, hu₀⟩ := Option.isSome_iff_exists.1 hu
      rcases hkept.get .unpublished with ⟨hnone, -⟩ | ⟨v, u, hv, hu', hrecalls⟩
      · rw [hu₀] at hnone
        cases hnone
      · refine ⟨u, hu', fun u₀ hu₀ => ?_⟩
        rw [hv] at hu₀
        cases hu₀
        exact hrecalls
  | added hu hp hkept hcontent =>
      refine ⟨_, (Record.get_putVariant ..).trans (if_pos rfl), fun u₀ hu₀ => ?_⟩
      rw [hu] at hu₀
      cases hu₀

end Underlies

/-- A record in the course of a session that began with `before`: on the ground of the session
there is a draft that the user holds, with the content `c`. -/
inductive InSession (b : Backend) (user : String) (before : Record) (c : Payload) :
    Record → Prop
  | intro {kept : Record} {d : Variant} (hkept : Underlies b user before kept)
      (hholder : d.holder = some user) (hcontent : b.Recalls c d.content) :
      InSession b user before c (kept.putVariant .draft (some d))

theorem InSession.step {b : Backend} {user : String} {before r : Record} {c : Payload}
    (h : InSession b user before c r) : InSession b user before c (b.readsRecord r) := by
  cases h with
  | intro hkept hholder hcontent =>
      rw [b.readsRecord_putVariant]
      refine .intro hkept.step ((b.holder_readsBack _).trans hholder) ?_
      rw [Backend.content_readsBack]
      exact hcontent.step

/-- What a session that was committed leaves of `before`: an unpublished variant with the
content `c`, written by the user; the one that was there before differs from it in nothing
else. The rest of the record is what it was. -/
structure Committed (b : Backend) (user : String) (before : Record) (c : Payload) (r : Record) :
    Prop where
  draft : r.variants.get .draft = none
  written : ∃ kept u, b.RecallsRecord before kept ∧ r = kept.putVariant .unpublished (some u) ∧
    b.Recalls c u.content ∧ u.modifiedBy = user ∧
    ∀ u₀, before.variants.get .unpublished = some u₀ →
      u = { u₀ with content := u.content, modifiedAt := u.modifiedAt, modifiedBy := user }

/-- What a write into the unpublished variant makes of the ground of a session. -/
theorem Underlies.committed {b : Backend} {user : String} {before kept : Record} {u : Variant}
    {c content : Payload} (h : Underlies b user before kept)
    (hdraft : before.variants.get .draft = none)
    (hu : kept.variants.get .unpublished = some u) (hcontent : b.Recalls c content)
    (now : Instant) :
    Committed b user before c
      (kept.putVariant .unpublished (some (u.withContent content user now))) := by
  refine ⟨?_, ?_⟩
  · rw [Record.get_putVariant, if_neg (by decide)]
    exact h.get_draft hdraft
  · obtain ⟨u', hu', hrecalls⟩ := h.exists_unpublished
    obtain rfl : u' = u := Option.some.inj (hu'.symm.trans hu)
    cases h with
    | own hhas hkept =>
        refine ⟨_, _, hkept, rfl, hcontent, rfl, fun u₀ hu₀ => ?_⟩
        rw [(hrecalls u₀ hu₀).rest]
        rfl
    | @added kept p u hnone hp hkept =>
        refine ⟨kept, _, hkept, Record.putVariant_putVariant, hcontent, rfl, fun u₀ hu₀ => ?_⟩
        rw [hnone] at hu₀
        cases hu₀

/-! ## The operations of a session -/

namespace Handle

variable {h : Handle}

/-- Who holds the draft is not kept from it. -/
theorem isHeldByOther_of_own {d : Variant} (hd : h.variant? .draft = some d)
    (hholder : d.holder = some h.user) : h.isHeldByOther = false := by
  unfold isHeldByOther holder?
  rw [hd]
  show (d.holder.any fun holder => decide (holder ≠ h.user)) = false
  rw [hholder]
  simp

/-- The holder of the draft may take it up again, write it and close it. -/
theorem allows_of_own {d u : Variant} (hd : h.variant? .draft = some d)
    (hu : h.variant? .unpublished = some u) (hholder : d.holder = some h.user) {op : Operation}
    (hop : op ∈ [.obtain, .update, .commit, .dispose]) (id? : Option String) :
    (Hints.ofHandle h).allows op id? = true := by
  have hfree := isHeldByOther_of_own hd hholder
  have hasDraft : h.record.variants.has .draft = true := by rw [has_eq, hd]; rfl
  have hasUnpublished : h.record.variants.has .unpublished = true := by rw [has_eq, hu]; rfl
  have hany : h.record.variants.any = true :=
    List.any_eq_true.2 ⟨.draft, Stage.mem_all _, hasDraft⟩
  simp only [List.mem_cons, List.not_mem_nil, or_false] at hop
  rcases hop with rfl | rfl | rfl | rfl <;> rw [Hints.allows_eq _ rfl] <;>
    simp [allows, hany, hfree, hasDraft, hasUnpublished]

/-- A draft that nobody has taken up may be made by anybody. -/
theorem allows_obtain_of_no_draft (hsound : h.record.IsSound)
    (hd : h.variant? .draft = none) (id? : Option String) :
    (Hints.ofHandle h).allows .obtain id? = true := by
  have hfree : h.isHeldByOther = false := by
    unfold isHeldByOther holder?
    rw [hd]
    rfl
  rw [Hints.allows_eq _ rfl]
  unfold allows
  rw [any_of_isSound hsound, hfree]
  rfl

end Handle

section

variable {b : Backend} (ctx : Context) {h : Handle} {before : Record} {c : Payload}

/-- Taking up a document without a draft begins a session. -/
theorem exists_rewrites_opening (hsound : h.record.IsSound)
    (hdraft : h.variant? .draft = none) (hkept : b.RecallsRecord before h.record)
    (hc : before.workingContent? = some c) (readings : Readings) (n : Nat) :
    ∃ path r t d, Rewrites ctx h .obtain path r t ∧ t.result = some d ∧ readings.Gives n path ∧
      InSession b h.user before c r := by
  have hallows := Handle.allows_obtain_of_no_draft hsound hdraft ctx.arguments.request
  unfold Record.workingContent? at hc
  -- Without an unpublished variant the first rule that fits is the one for published documents.
  rcases hkept.get .unpublished with ⟨hnone, hu⟩ | ⟨u₀, u, hu₀, hu, hrecalls⟩
  · obtain ⟨p, hp⟩ := Handle.exists_published_of_any
      ((Hints.allows_eq h rfl _).symm.trans hallows) hdraft hu
    rcases hkept.get .published with ⟨-, hp'⟩ | ⟨p₀, p', hp₀, hp', hrecalls⟩
    · rw [show h.record.variants.get .published = some p from hp] at hp'
      cases hp'
    · obtain rfl : p' = p := Option.some.inj (hp'.symm.trans hp)
      obtain rfl : p₀.content = c := by simpa [hnone, hp₀] using hc
      refine ⟨[.now (readings.clock n), .fresh .variant (readings.names (n + 1)),
          .now (readings.clock (n + 2)), .fresh .variant (readings.names (n + 3))], _, _, _,
        ⟨hallows, .draftPublished hdraft hu hp, ?_, rfl, rfl, rfl, rfl⟩, rfl,
        ⟨rfl, rfl, rfl, rfl, trivial⟩, ?_⟩
      · simp [Taken.AnsweredBy]
      · exact .intro (.added hnone hp₀ hkept hrecalls.content rfl rfl) rfl hrecalls.content
  · obtain rfl : u₀.content = c := by simpa [hu₀] using hc
    refine ⟨[.now (readings.clock n), .fresh .variant (readings.names (n + 1))], _, _, _,
      ⟨hallows, .draft hdraft hu, ?_, rfl, rfl, rfl, rfl⟩, rfl, ⟨rfl, rfl, trivial⟩, ?_⟩
    · simp [Taken.AnsweredBy]
    · exact .intro (.own (Option.isSome_iff_exists.2 ⟨u₀, hu₀⟩) hkept) rfl hrecalls.content

/-- The document in hand is in a session of the user: the draft `d` stands on the ground `kept`,
which has the unpublished variant `u`, and the user may go on with the session. -/
structure HasDraft (b : Backend) (h : Handle) (before : Record) (c : Payload) (kept : Record)
    (d u : Variant) : Prop where
  record : h.record = kept.putVariant .draft (some d)
  ground : Underlies b h.user before kept
  holder : d.holder = some h.user
  content : b.Recalls c d.content
  draft : h.variant? .draft = some d
  unpublished : h.variant? .unpublished = some u
  stays : kept.variants.get .unpublished = some u
  allows : ∀ op ∈ [Operation.obtain, .update, .commit, .dispose], ∀ id?,
    (Hints.ofHandle h).allows op id? = true

theorem InSession.exists_hasDraft (hs : InSession b h.user before c h.record) :
    ∃ kept d u, HasDraft b h before c kept d u := by
  generalize hr : h.record = r at hs
  cases hs with
  | @intro kept d hkept hholder hcontent =>
      obtain ⟨u, hu, -⟩ := hkept.exists_unpublished
      have hd : h.variant? .draft = some d := by
        show h.record.variants.get .draft = _
        rw [hr, Record.get_putVariant, if_pos rfl]
      have hu' : h.variant? .unpublished = some u := by
        show h.record.variants.get .unpublished = _
        rw [hr, Record.get_putVariant, if_neg (by decide)]
        exact hu
      exact ⟨kept, d, u, hr, hkept, hholder, hcontent, hd, hu', hu,
        fun op hop id? => Handle.allows_of_own hd hu' hholder hop id?⟩

/-- Taking the draft up again leaves it in the same hands. -/
theorem InSession.exists_rewrites_obtain (hs : InSession b h.user before c h.record) :
    ∃ r t d, Rewrites ctx h .obtain [] r t ∧ t.result = some d ∧
      InSession b h.user before c r := by
  obtain ⟨kept, d, u, hdraft⟩ := hs.exists_hasDraft
  refine ⟨_, _, _, ⟨hdraft.allows _ (by simp) _, .claim hdraft.draft, List.forall_mem_nil _, rfl,
    rfl, rfl, rfl⟩, rfl, ?_⟩
  rw [hdraft.record, Record.putVariant_putVariant]
  exact .intro hdraft.ground rfl hdraft.content

/-- Writing the draft gives it the content that was written. -/
theorem InSession.exists_rewrites_update (hs : InSession b h.user before c h.record)
    {content : Payload} (hgiven : ctx.arguments.content = some content) (now : Instant) :
    ∃ r t d, Rewrites ctx h .update [.now now] r t ∧ t.result = some d ∧
      InSession b h.user before content r := by
  obtain ⟨kept, d, u, hdraft⟩ := hs.exists_hasDraft
  refine ⟨_, _, _, ⟨hdraft.allows _ (by simp) _, .update hgiven hdraft.draft,
    List.forall_mem_singleton.2 fun _ => trivial, rfl, rfl, rfl, rfl⟩, rfl, ?_⟩
  rw [hdraft.record, Record.putVariant_putVariant]
  exact .intro hdraft.ground hdraft.holder .same

/-- Committing the draft writes its content into the unpublished variant. -/
theorem InSession.exists_rewrites_commit (hs : InSession b h.user before c h.record)
    (hnone : before.variants.get .draft = none) (now : Instant) :
    ∃ r t d, Rewrites ctx h .commit [.now now] r t ∧ t.result = some d ∧
      Committed b h.user before c r := by
  obtain ⟨kept, d, u, hdraft⟩ := hs.exists_hasDraft
  refine ⟨_, _, _, ⟨hdraft.allows _ (by simp) _, .fold hdraft.draft hdraft.unpublished,
    List.forall_mem_singleton.2 fun _ => trivial, rfl, rfl, rfl, rfl⟩, rfl, ?_⟩
  rw [hdraft.record, Record.putVariant_unpublished_draft,
    Record.putVariant_draft_none (hdraft.ground.get_draft hnone)]
  exact hdraft.ground.committed hnone hdraft.stays hdraft.content now

/-- Throwing the draft away leaves the ground of the session. -/
theorem InSession.exists_rewrites_dispose (hs : InSession b h.user before c h.record)
    (hnone : before.variants.get .draft = none) :
    ∃ r t d, Rewrites ctx h .dispose [] r t ∧ t.result = some d ∧
      Underlies b h.user before r := by
  obtain ⟨kept, d, u, hdraft⟩ := hs.exists_hasDraft
  refine ⟨_, _, _, ⟨hdraft.allows _ (by simp) _, .dispose hdraft.draft hdraft.unpublished,
    List.forall_mem_nil _, rfl, rfl, rfl, rfl⟩, rfl, ?_⟩
  rw [hdraft.record, Record.putVariant_putVariant,
    Record.putVariant_draft_none (hdraft.ground.get_draft hnone)]
  exact hdraft.ground

end

/-! ## A session alone -/

/-- Since it was in the system `s₀`, the document `id` has been in a session of `user` that
began with `before`: its record is one in the course of that session, and of the other
records none has been touched. -/
structure Drafting (s₀ : System) (id user : String) (before : Record) (c : Payload) (s : System) :
    Prop where
  backend : s.backend = s₀.backend
  others : ∀ other, other ≠ id → s.store.get? other = s₀.store.get? other
  filed : s.store.Filed
  spread : s.store.Spread
  stored : ∃ stored, s.store.get? id = some stored ∧ s.backend.canRead stored.record = true ∧
    stored.record.IsSound ∧ InSession s₀.backend user before c stored.record

namespace Drafting

variable {desk : Desk} {s₀ s s' : System} {id user : String} {before r : Record} {c : Payload}
  {stored : Stored}

/-- The record of a session that is stored in place of one. -/
theorem of_replaces (h : s.Replaces id stored r s') (hbackend : s.backend = s₀.backend)
    (hothers : ∀ other, other ≠ id → s.store.get? other = s₀.store.get? other)
    (hreadable : s.backend.canRead r = true) (hr : InSession s₀.backend user before c r) :
    Drafting s₀ id user before c s' where
  backend := h.backend.trans hbackend
  others other hother := (h.others other hother).trans (hothers other hother)
  filed := h.filed
  spread := h.spread
  stored := ⟨_, h.replaced, h.backend ▸ hreadable, h.sound, hr⟩

/-- The document as its editor is handed it. -/
theorem exists_handTo (h : Drafting s₀ id user before c s) :
    ∃ stored, s.store.get? id = some stored ∧ s.backend.canRead stored.record = true ∧
      stored.record.IsSound ∧ InSession s₀.backend (s.backend.handTo stored user).user before c
        (s.backend.handTo stored user).record := by
  obtain ⟨stored, hget, hreadable, hsound, hs⟩ := h.stored
  refine ⟨stored, hget, hreadable, hsound, ?_⟩
  rw [Backend.record_handTo, s.backend.record_handsOut_eq, h.backend]
  exact hs.step

/-- An edit goes on with a session. -/
theorem edit (htable : desk.table = .standard) (h : Drafting s₀ id user before c s) {e : Edit}
    (he : e.call.isReadable s.backend = true) (readings : Readings) :
    ∃ result s', s.runAt readings (desk.process (.call id user e.call)) = (result, s') ∧
      HandsBack result ∧ Drafting s₀ id user before (e.apply c) s' := by
  obtain ⟨stored, hget, hreadable, hsound, hs⟩ := h.exists_handTo
  cases e with
  | obtain =>
      obtain ⟨r, t, d, hrewrites, hd, hr⟩ := hs.exists_rewrites_obtain
        ⟨{ now := readings.clock 0 }, desk.settings.folderCategory⟩
      have hcall : desk.answer id user Edit.obtain.call = desk.fetch id user .obtain := rfl
      obtain ⟨s', hrun, hreplaces⟩ := System.exists_replaces_fetch htable h.filed h.spread hget
        hreadable hsound rfl hcall hrewrites hd trivial
      exact ⟨_, s', hrun, ⟨d, rfl⟩, of_replaces hreplaces h.backend h.others
        (hrewrites.canRead hreadable nofun) hr⟩
  | update content =>
      have hcall : desk.answer id user (Edit.update content).call =
        desk.fetch id user .update fun a => { a with content := some content } := rfl
      obtain ⟨r, t, d, hrewrites, hd, hr⟩ := hs.exists_rewrites_update
        ⟨{ now := readings.clock 0, content := some content }, desk.settings.folderCategory⟩ rfl
        (readings.clock 2)
      obtain ⟨s', hrun, hreplaces⟩ := System.exists_replaces_fetch htable h.filed h.spread hget
        hreadable hsound rfl hcall hrewrites hd ⟨rfl, trivial⟩
      refine ⟨_, s', hrun, ⟨d, rfl⟩, of_replaces hreplaces h.backend h.others
        (hrewrites.canRead hreadable fun _ given hgiven => ?_) hr⟩
      cases hgiven
      exact he

/-- So does any number of edits in turn. -/
theorem run (htable : desk.table = .standard) {edits : List (Edit × Readings)}
    (hedits : ∀ e ∈ edits, e.1.call.isReadable s.backend = true)
    (h : Drafting s₀ id user before c s) :
    ∃ results s', s.inTurn desk id user (edits.map fun e => (e.1.call, e.2)) = (results, s') ∧
      (∀ result ∈ results, HandsBack result) ∧
      Drafting s₀ id user before (Edit.applyAll c (edits.map Prod.fst)) s' := by
  -- The record the session began with stays the same, the content in hand does not.
  induction edits generalizing s c with
  | nil => exact ⟨[], s, rfl, List.forall_mem_nil _, h⟩
  | cons e rest ih =>
      obtain ⟨result, s₁, hrun, hresult, h₁⟩ := h.edit htable (hedits e (List.mem_cons_self ..)) e.2
      have hbackend : s₁.backend = s.backend := h₁.backend.trans h.backend.symm
      obtain ⟨results, s', hrest, hresults, h'⟩ := ih
        (fun e' hm => hbackend ▸ hedits e' (List.mem_cons_of_mem _ hm)) h₁
      refine ⟨result :: results, s', ?_, List.forall_mem_cons.2 ⟨hresult, hresults⟩, h'⟩
      rw [List.map_cons, System.inTurn, hrun, hrest]

/-- A session begins when a document without a draft is taken up. -/
theorem opens (htable : desk.table = .standard) (hfiled : s.store.Filed)
    (hspread : s.store.Spread) (hget : s.store.get? id = some stored)
    (hreadable : s.backend.canRead stored.record = true) (hsound : stored.record.IsSound)
    (hdraft : stored.record.variants.get .draft = none)
    (hc : stored.record.workingContent? = some c) (readings : Readings) :
    ∃ result s', s.runAt readings (desk.process (.call id user .obtain)) = (result, s') ∧
      HandsBack result ∧ Drafting s id user stored.record c s' := by
  have hkept : s.backend.RecallsRecord stored.record (s.backend.handTo stored user).record := by
    rw [Backend.record_handTo, s.backend.record_handsOut_eq]
    exact .step .same
  have hdraft' : (s.backend.handTo stored user).variant? .draft = none := by
    rw [s.backend.variant?_handTo, hdraft]
    rfl
  obtain ⟨path, r, t, d, hrewrites, hd, hgives, hr⟩ := exists_rewrites_opening
    ⟨{ now := readings.clock 0 }, desk.settings.folderCategory⟩
    (s.backend.isSound_handsOut hsound) hdraft' hkept hc readings 2
  have hcall : desk.answer id user .obtain = desk.fetch id user .obtain := rfl
  obtain ⟨s', hrun, hreplaces⟩ := System.exists_replaces_fetch htable hfiled hspread hget
    hreadable hsound rfl hcall hrewrites hd hgives
  exact ⟨_, s', hrun, ⟨d, rfl⟩, of_replaces hreplaces rfl (fun _ _ => rfl)
    (hrewrites.canRead hreadable nofun) hr⟩

/-- A session is closed by a call that replaces the record. -/
theorem exists_committed (htable : desk.table = .standard) (h : Drafting s₀ id user before c s)
    (hdraft : before.variants.get .draft = none) (readings : Readings) :
    ∃ result s' stored r, s.runAt readings (desk.process (.call id user .commit)) = (result, s') ∧
      HandsBack result ∧ s.Replaces id stored r s' ∧ Committed s₀.backend user before c r := by
  obtain ⟨stored, hget, hreadable, hsound, hs⟩ := h.exists_handTo
  obtain ⟨r, t, d, hrewrites, hd, hr⟩ := hs.exists_rewrites_commit
    ⟨{ now := readings.clock 0 }, desk.settings.folderCategory⟩ hdraft (readings.clock 2)
  have hcall : desk.answer id user .commit = desk.fetch id user .commit := rfl
  obtain ⟨s', hrun, hreplaces⟩ := System.exists_replaces_fetch htable h.filed h.spread hget
    hreadable hsound rfl hcall hrewrites hd ⟨rfl, trivial⟩
  exact ⟨_, s', stored, r, hrun, ⟨d, rfl⟩, hreplaces, hr⟩

theorem exists_disposed (htable : desk.table = .standard) (h : Drafting s₀ id user before c s)
    (hdraft : before.variants.get .draft = none) (readings : Readings) :
    ∃ result s' stored r, s.runAt readings (desk.process (.call id user .dispose)) = (result, s') ∧
      HandsBack result ∧ s.Replaces id stored r s' ∧ Underlies s₀.backend user before r := by
  obtain ⟨stored, hget, hreadable, hsound, hs⟩ := h.exists_handTo
  obtain ⟨r, t, d, hrewrites, hd, hr⟩ := hs.exists_rewrites_dispose
    ⟨{ now := readings.clock 0 }, desk.settings.folderCategory⟩ hdraft
  have hcall : desk.answer id user .dispose = desk.fetch id user .dispose := rfl
  obtain ⟨s', hrun, hreplaces⟩ := System.exists_replaces_fetch htable h.filed h.spread hget
    hreadable hsound rfl hcall hrewrites hd trivial
  exact ⟨_, s', stored, r, hrun, ⟨d, rfl⟩, hreplaces, hr⟩

end Drafting

/-- The calls of a session: the draft is taken up, edited and closed. -/
def sessionCalls (opening : Readings) (edits : List (Edit × Readings)) (close : Call)
    (closing : Readings) : List (Call × Readings) :=
  (.obtain, opening) :: (edits.map (fun e => (e.1.call, e.2)) ++ [(close, closing)])

/-- Run in turn, all the calls hand a document back. In the end the record of the document is
as `P` says, and no other record has been touched. -/
def System.LeavesInTurn (desk : Desk) (id user : String) (s : System)
    (calls : List (Call × Readings)) (P : Record → Prop) : Prop :=
  ∃ results s' after, s.inTurn desk id user calls = (results, s') ∧
    (∀ result ∈ results, HandsBack result) ∧ s'.store.get? id = some after ∧ P after.record ∧
    ∀ other, other ≠ id → s'.store.get? other = s.store.get? other

section

variable {desk : Desk} {s : System} {id user : String} {stored : Stored} {c : Payload}

/-- A session leaves what the call leaves that closes it. -/
theorem leavesInTurn_session (htable : desk.table = .standard) (hfiled : s.store.Filed)
    (hspread : s.store.Spread) (hget : s.store.get? id = some stored)
    (hreadable : s.backend.canRead stored.record = true) (hsound : stored.record.IsSound)
    (hdraft : stored.record.variants.get .draft = none)
    (hc : stored.record.workingContent? = some c) (opening : Readings)
    {edits : List (Edit × Readings)}
    (hedits : ∀ e ∈ edits, e.1.call.isReadable s.backend = true)
    {close : Call} {closing : Readings} {P : Record → Prop}
    (hclose : ∀ {s₁ : System},
      Drafting s id user stored.record (Edit.applyAll c (edits.map Prod.fst)) s₁ →
      ∃ result s' stored r, s₁.runAt closing (desk.process (.call id user close)) = (result, s') ∧
        HandsBack result ∧ s₁.Replaces id stored r s' ∧ P r) :
    s.LeavesInTurn desk id user (sessionCalls opening edits close closing) P := by
  obtain ⟨result, s₁, hopen, hresult, h₁⟩ :=
    Drafting.opens htable hfiled hspread hget hreadable hsound hdraft hc opening
  obtain ⟨results, s₂, hrun, hresults, h₂⟩ := h₁.run htable (h₁.backend ▸ hedits)
  obtain ⟨last, s', stored', r, hlast, hback, hreplaces, hr⟩ := hclose h₂
  refine ⟨result :: (results ++ [last]), s', _, ?_, ?_, hreplaces.replaced, hr, ?_⟩
  · rw [sessionCalls, System.inTurn, hopen]
    simp only [System.inTurn_append, hrun, System.inTurn, hlast]
  · refine List.forall_mem_cons.2 ⟨hresult, fun result hm => ?_⟩
    rcases List.mem_append.1 hm with hm | hm
    · exact hresults result hm
    · rw [List.mem_singleton.1 hm]
      exact hback
  · exact fun other hother => (hreplaces.others other hother).trans (h₂.others other hother)

end

/-- An editing session is a transaction on the unpublished content: on every stored document
that passes its checks and has no draft, by every user, with any edits, all calls succeed.
If the draft is committed, the unpublished content is what was written last, or what the
draft was made from, and nothing else has changed; if it is thrown away, the document is
what it was, with an unpublished variant if it had none.

A table hands out only documents of which no content is nested deeper than
`Payload.depthLimit` (`Backend.canRead_iff`), so there the document has to be one, and no
edit may write a deeper content.

Stores that were made by commits are filed and spread (`Store.Filed.commit`,
`Store.Spread.commit`). -/
theorem editing_is_transactional (desk : Desk) (htable : desk.table = .standard) (s : System)
    (hfiled : s.store.Filed) (hspread : s.store.Spread) (id user : String) (stored : Stored)
    (hget : s.store.get? id = some stored) (hreadable : s.backend.canRead stored.record = true)
    (hcheck : stored.record.check = .ok ()) (hdraft : stored.record.variants.get .draft = none)
    (opening closing : Readings) (edits : List (Edit × Readings))
    (hedits : ∀ e ∈ edits, e.1.call.isReadable s.backend = true) :
    ∃ c, stored.record.workingContent? = some c ∧
      s.LeavesInTurn desk id user (sessionCalls opening edits .commit closing)
        (Committed s.backend user stored.record (Edit.applyAll c (edits.map Prod.fst))) ∧
      s.LeavesInTurn desk id user (sessionCalls opening edits .dispose closing)
        (Underlies s.backend user stored.record) := by
  have hsound := (Record.check_eq_ok_iff _).1 hcheck
  obtain ⟨c, hc⟩ := stored.record.exists_workingContent? hsound hdraft
  exact ⟨c, hc,
    leavesInTurn_session htable hfiled hspread hget hreadable hsound hdraft hc opening hedits
      fun h => h.exists_committed htable hdraft closing,
    leavesInTurn_session htable hfiled hspread hget hreadable hsound hdraft hc opening hedits
      fun h => h.exists_disposed htable hdraft closing⟩

/-- A document that is published only is taken up, written, taken up again and written. -/
theorem editing_is_transactional_twice :
    let content (n : Int) : Payload := .ofJson (.integer n)
    let record := Record.single "a" (some ⟨"news", "front"⟩)
      (.make "v" .published (content 7) "ann" .epoch)
    let s : System := { store := Keyed.ofList [("a", ⟨record, 5⟩)] }
    let readings : Readings := ⟨fun _ => .epoch, fun _ => "w"⟩
    let edits := [Edit.update (content 1), .obtain, .update (content 2)]
    (s.store.Filed ∧ s.store.Spread ∧ s.store.get? "a" = some ⟨record, 5⟩ ∧
        s.backend.canRead record = true ∧ record.check = .ok () ∧
        record.variants.get .draft = none ∧
        ∀ e ∈ edits.map fun e => (e, readings), e.1.call.isReadable s.backend = true) ∧
      ∃ c, record.workingContent? = some c ∧
        s.LeavesInTurn {} "a" "bob"
          (sessionCalls readings (edits.map fun e => (e, readings)) .commit readings)
          (Committed .whole "bob" record
            (Edit.applyAll c ((edits.map fun e => (e, readings)).map Prod.fst))) ∧
        s.LeavesInTurn {} "a" "bob"
          (sessionCalls readings (edits.map fun e => (e, readings)) .dispose readings)
          (Underlies .whole "bob" record) := by
  intro content record s readings edits
  have hfiled : s.store.Filed := by decide +kernel
  have hspread : s.store.Spread := by decide +kernel
  have hget : s.store.get? "a" = some ⟨record, 5⟩ := by decide +kernel
  have hcheck : record.check = .ok () := by decide +kernel
  have hdraft : record.variants.get .draft = none := rfl
  have hedits : ∀ e ∈ edits.map fun e => (e, readings), e.1.call.isReadable s.backend = true :=
    fun e _ => Call.isReadable_whole e.1.call
  exact ⟨⟨hfiled, hspread, hget, rfl, hcheck, hdraft, hedits⟩,
    editing_is_transactional {} rfl s hfiled hspread "a" "bob" ⟨record, 5⟩ hget rfl hcheck hdraft
      readings readings _ hedits⟩

/-- In a table a session that is thrown away leaves another content than it began with: the
unpublished variant is loaded as a neighbour of what it was. -/
theorem disposed_session_drifts :
    let content (bits : UInt64) : Payload := .ofJson (.double ⟨bits⟩)
    let record := Record.single "a" none
      (.make "v" .unpublished (content 4259304194031319137) "ann" .epoch)
    let s : System := { backend := .stepwise, store := Keyed.ofList [("a", ⟨record, 1⟩)] }
    let readings : Readings := ⟨fun _ => .epoch, fun _ => "w"⟩
    let calls := sessionCalls readings [(.update (.ofJson (.integer 1)), readings)] .dispose readings
    let content? (s : System) : Option Payload :=
      (s.backend.loaded? s.store "a").bind fun stored =>
        (stored.record.variants.get .unpublished).map Variant.content
    content? s = some (content 4259304194031319138) ∧
      content? (s.inTurn {} "a" "bob" calls).2 = some (content 4259304194031319137) ∧
      content 4259304194031319138 ≠ content 4259304194031319137 := by
  decide +kernel

end Editorial
