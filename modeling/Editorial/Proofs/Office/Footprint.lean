import Editorial.Proofs.Office.Changes
import Editorial.Proofs.Office.Events

/-!
# What a call leaves alone

A commit may make several changes, and a task may stage one to any document, so that a call
keeps to its own document is not a matter of how commits are made. It follows from what the
operations do: all but two stage nothing. A copy is staged as a new document under a name
that nobody had, and a version may be written into one variant of another document. In both
cases the document of the call is written back as it was loaded, so its revision grows as if
it were changed.

As it was loaded is not as it was stored, if the store is a table: a double in a content may
come back as a neighbour of itself, and the neighbour is what is written back.

## Main results

* `Effect.deletes_eq` — which operations remove the document they are on.
* `CommitsCall.footprint` — what a commit of a call makes of the store.
* `footprints_hold` — the same for every run of an office.
-/

namespace Editorial

/-! ## Calls that do more than change a document -/

/-- Whether a call on the document `own` writes another one besides. -/
def Call.strays (own : String) : Call → Bool
  | .copy _ _ => true
  | .restoreVersionTo _ target => target.handle ≠ own
  | _ => false

/-- Whether a call on the document `r` removes it: it asks for that, or it accepts a request
for it. -/
def Call.removes (r : Record) : Call → Bool
  | .delete => true
  | .acceptRequest n => (r.request? n).any fun q => q.kind = .deletion
  | _ => false

/-- Whether an operation on the record `r` removes it. -/
def Operation.removes (arguments : Arguments) (r : Record) : Operation → Bool
  | .delete => true
  | .acceptRequest => (arguments.request.bind r.request?).any fun q => q.kind = .deletion
  | _ => false

namespace Call.Asks

variable {call : Call} {op : Operation} {arguments : Arguments}

theorem strays_eq (h : call.Asks op arguments) (own : String) :
    op.strays arguments own = call.strays own := by
  obtain ⟨-, begun, now, hturn⟩ := h
  cases call with
  | publish date? => obtain ⟨rfl | rfl, -⟩ := of_turn?_publish hturn <;> rfl
  | depublish date? => obtain ⟨rfl | rfl, -⟩ := of_turn?_depublish hturn <;> rfl
  | hints => cases hturn
  | _ =>
      cases hturn
      rfl

theorem removes_eq (h : call.Asks op arguments) (r : Record) :
    op.removes arguments r = call.removes r := by
  obtain ⟨-, begun, now, hturn⟩ := h
  cases call with
  | publish date? => obtain ⟨rfl | rfl, -⟩ := of_turn?_publish hturn <;> rfl
  | depublish date? => obtain ⟨rfl | rfl, -⟩ := of_turn?_depublish hturn <;> rfl
  | hints => cases hturn
  | _ =>
      cases hturn
      rfl

end Call.Asks

/-- Reading a document again does not change whether a call removes it. -/
theorem Call.removes_handsOut (b : Backend) (stored : Stored) (call : Call) :
    call.removes (b.handsOut stored).record = call.removes stored.record := by
  cases call with
  | acceptRequest n => rw [removes, removes, b.request?_handsOut]
  | _ => rfl

/-- An operation that carries out a request removes the document if that is what was asked
for. -/
theorem Operation.removes_of_resolving {kind : RequestKind} {op : Operation}
    (hop : resolving? kind = some op) (arguments : Arguments) (r : Record) :
    op.removes arguments r = decide (kind = .deletion) := by
  cases kind <;> cases hop <;> rfl

/-- An operation removes the document it is on if it is the one for that, or accepts a request
for it. A request that is scheduled does not ask for that. -/
theorem Effect.deletes_eq {ctx : Context} {h : Handle} {op : Operation} {path : List Taken}
    {r : Record} {t : Transaction} (he : Effect ctx h op path r t) :
    t.deletes = op.removes ctx.arguments h.record := by
  induction he with
  | @file h op kind id t hop hdate => cases op <;> first | rfl | cases hop
  | schedule hid hq hdate hkind =>
      rw [Operation.removes, hid, Option.bind_some, hq, Option.any_some]
      refine (decide_eq_false fun hdeletion => ?_).symm
      rw [hdeletion] at hkind
      cases hkind
  | accept hid hq hnow hop hallows hrest ih =>
      rw [ih, Operation.removes_of_resolving hop, Operation.removes, hid, Option.bind_some, hq,
        Option.any_some]
  | runScheduled hq hdue hop hallows hrest ih =>
      rw [ih, Operation.removes_of_resolving hop]
      refine decide_eq_false fun hdeletion => ?_
      rw [Request.isDue, hdeletion] at hdue
      cases hdue
  | _ => rfl

/-! ## One commit -/

/-- `Footprint s own user stored call after` says that `after` may be what is left of the store
of the system `s` when a call of `user` on the document `own`, which is `stored`, commits. What
is written back as it was loaded is as it was stored, unless the store is a table. -/
inductive Footprint (s : System) (own user : String) (stored : Stored) : Call → Store → Prop
  | changed {call : Call} {after : Store} {r : Record} (hstays : call.strays own = false)
      (hkeeps : call.removes stored.record = false)
      (hown : after.get? own = some ⟨r, stored.revision + 1⟩)
      (hothers : ∀ id, id ≠ own → after.get? id = s.store.get? id) :
      Footprint s own user stored call after
  | removed {call : Call} {after : Store} (hremoves : call.removes stored.record = true)
      (hown : after.get? own = none)
      (hothers : ∀ id, id ≠ own → after.get? id = s.store.get? id) :
      Footprint s own user stored call after
  /-- The copy has one variant, and no requests and no history. -/
  | copied {container name new variant : String} {after : Store} {v : Variant} {t : Instant}
      (hv : ((s.backend.handsOut stored).record.variants.get .unpublished).or
        ((s.backend.handsOut stored).record.variants.get .published) = some v)
      (hnew : s.store.get? new = none)
      (hcopy : after.get? new = some ⟨.single new (some ⟨container, name⟩)
        (.entering .unpublished variant v.content user t none), 1⟩)
      (hown : after.get? own =
        some ⟨(s.backend.handsOut stored).record, stored.revision + 1⟩)
      (hothers : ∀ id, id ≠ own → id ≠ new → after.get? id = s.store.get? id) :
      Footprint s own user stored (.copy container name) after
  | written {timestamp : Instant} {target : Reference} {after : Store} {other : Stored}
      {v : Variant} {content : Payload} {now : Instant} (hne : target.handle ≠ own)
      (hget : s.store.get? target.handle = some other)
      (hv : (s.backend.handsOut other).record.variants.get target.stage = some v)
      (hwritten : after.get? target.handle =
        some ⟨(s.backend.handsOut other).record.putVariant target.stage
          (some (v.withContent content user now)), other.revision + 1⟩)
      (hown : after.get? own =
        some ⟨(s.backend.handsOut stored).record, stored.revision + 1⟩)
      (hothers : ∀ id, id ≠ own → id ≠ target.handle → after.get? id = s.store.get? id) :
      Footprint s own user stored (.restoreVersionTo timestamp target) after

/-- What a commit of a call makes of the store. -/
theorem CommitsCall.footprint {desk : Desk} {s : System} {c : Client} {after : Store}
    (h : CommitsCall desk s c after) (hfiled : s.store.Filed) {own user : String} {call : Call}
    (hjob : c.job = .call own user call) :
    ∃ stored, s.store.get? own = some stored ∧ Footprint s own user stored call after := by
  cases h with
  | @intro own' user' call' stored op arguments path r t hjob' hget hasks hbegun hallows heffect
      hid hloads hfresh hexpected hmade =>
      rw [hjob] at hjob'
      cases hjob'
      refine ⟨stored, hget, ?_⟩
      have hown := hmade.get?_closing hid
      have hdeletes : t.deletes = call.removes stored.record := by
        rw [heffect.deletes_eq, hasks.removes_eq, call.removes_handsOut]
      have hthis : Handle.id ⟨(s.backend.handsOut stored).record,
          (s.backend.handsOut stored).revision, user⟩ = own :=
        (s.backend.id_handsOut stored).trans (hfiled own stored hget)
      have hothers : ∀ id, id ≠ own → id ∉ t.staged.map Change.id →
          after.get? id = s.store.get? id := fun id hne hstaged =>
        hmade.untouched id (by rw [stored.map_id_closing hid]; simp [hne, hstaged])
      have hput : ∀ change ∈ t.staged, s.store.revision? change.id = change.expected? ∧
          after.get? change.id = change.result? := fun change hm =>
        ⟨hexpected change (List.mem_cons_of_mem _ hm), hmade.get?_id (List.mem_cons_of_mem _ hm)⟩
      have hstages := heffect.staged
      generalize t.staged = changes at hstages hothers hput
      cases hstages with
      | nothing hstays =>
          have hothers : ∀ id, id ≠ own → after.get? id = s.store.get? id := fun id hne =>
            hothers id hne List.not_mem_nil
          cases hremoves : call.removes stored.record with
          | true =>
              rw [hdeletes, hremoves] at hown
              exact .removed hremoves hown hothers
          | false =>
              rw [hdeletes, hremoves] at hown
              rw [hthis, hasks.strays_eq] at hstays
              exact .changed hstays hremoves hown hothers
      | copy hc hn hfresh hv =>
          obtain rfl := hasks.eq_of_asking? (show Call.asking? .copy arguments = _ by
            rw [Call.asking?, hc, hn]; rfl)
          rw [hdeletes] at hown
          obtain ⟨hrevision, hcopy⟩ := hput _ (List.mem_singleton_self _)
          exact .copied hv (Option.map_eq_none_iff.1 hrevision) hcopy hown fun id hne hnew =>
            hothers id hne fun hm => hnew (List.mem_singleton.1 hm)
      | @restore target loaded v content now htarget hne hloaded hv =>
          obtain ⟨timestamp, rfl⟩ := hasks.eq_restoreVersionTo htarget
          obtain ⟨other, hother, rfl, htargeted⟩ := hfiled.exists_of_load (hloads _ _ hloaded)
          rw [hdeletes] at hown
          have hwritten : after.get? (s.backend.handsOut other).record.id =
              some ⟨_, (s.backend.handsOut other).revision + 1⟩ :=
            (hput _ (List.mem_singleton_self _)).2
          rw [htargeted, s.backend.revision_handsOut other] at hwritten
          refine .written (hthis ▸ hne) hother hv hwritten hown fun id hid hne =>
            hothers id hid ?_
          show id ∉ [(s.backend.handsOut other).record.id]
          rw [htargeted]
          exact fun hm => hne (List.mem_singleton.1 hm)

/-! ## All runs -/

/-- What the calls in the runs of an office make of its store. -/
structure FootprintsHold (desk : Desk) (s : System) : Prop where
  /-- A client commits once, and nobody else in the same move. -/
  call : ∀ (moves : List Move) (move : Move) (c : Client) (own user : String) (call : Call),
    let o := (Office.opening s).run desk moves
    o.committing? move = some c → c.job = .call own user call →
    (∀ changes, .commit changes .committed ∉ c.journal) ∧
      ∃ stored, o.system.store.get? own = some stored ∧
        Footprint o.system own user stored call (o.step desk move).system.store
  still : ∀ (moves : List Move) (move : Move),
    let o := (Office.opening s).run desk moves
    o.committing? move = none → (o.step desk move).system.store = o.system.store

/-- In every run of an office that begins with records under their ids, whatever the clock,
the backend and the settings: a call that commits writes its own document once or removes it,
and it leaves all the others alone, but that a copy makes one new document and that a version
written into another document changes one variant of that. -/
theorem footprints_hold (desk : Desk) (htable : desk.table = .standard) (s : System)
    (hfiled : s.store.Filed) : FootprintsHold desk s := by
  refine ⟨fun moves move c own user call => ?_, fun moves move => ?_⟩
  · intro o hc hjob
    have hcurrent : o.Current desk := Office.current_run htable hfiled moves
    obtain ⟨changes, next, hm, hp, -⟩ := hcurrent.of_committing? htable hc
    have hidle := (hcurrent.traces c hm).of_commit hp
    exact ⟨(Client.not_mem_of_isIdle hidle).1,
      (hcurrent.commitsCall htable hc hjob).footprint hcurrent.filed hjob⟩
  · intro o hc
    exact (Office.sameData_step hc).store

/-- Bob copies a document of Ann's. -/
theorem footprints_hold_copy :
    let step (client : Nat) : Move := .advance client .epoch ""
    let moves : List Move :=
      [.enter (.create (some ⟨"news", "back"⟩) .unpublished .null "ann"), .advance 0 .epoch "a",
        .advance 0 .epoch "v", step 0, step 0, .enter (.call "a" "bob" (.copy "news" "front")),
        step 1, step 1, step 1, step 1, .advance 1 .epoch "b", step 1, .advance 1 .epoch "w",
        step 1, step 1, step 1]
    let s : System := { folders := Folders.register .empty "embedded" "news" true }
    let o := (Office.opening s).run {} moves
    o.system.store.get? "a" = some ⟨.single "a" (some ⟨"news", "back"⟩)
        (.make "v" .unpublished .null "ann" .epoch), 2⟩ ∧
      o.system.store.get? "b" = some ⟨.single "b" (some ⟨"news", "front"⟩)
        (.make "w" .unpublished .null "bob" .epoch), 1⟩ ∧
      FootprintsHold {} s := by
  intro step moves s o
  have hfiled : s.store.Filed := Store.filed_of_empty rfl
  exact ⟨by decide +kernel, by decide +kernel, footprints_hold {} rfl s hfiled⟩

/-- Kept in a table, the document that Bob copies has another content afterwards. -/
theorem copied_document_drifts :
    let step (client : Nat) : Move := .advance client .epoch ""
    let content (bits : UInt64) : Payload := .ofJson (.double ⟨bits⟩)
    let before : List Move :=
      [.enter (.create (some ⟨"news", "back"⟩) .unpublished (content 4259304194031319137) "ann"),
        .advance 0 .epoch "a", .advance 0 .epoch "v", step 0, step 0]
    let copy : Job := .call "a" "bob" (.copy "news" "front")
    let during : List Move :=
      [.enter copy, step 1, step 1, step 1, step 1, .advance 1 .epoch "b", step 1,
        .advance 1 .epoch "w", step 1, step 1, step 1]
    let s : System :=
      { backend := .stepwise, folders := Folders.register .empty "embedded" "news" true }
    let o := (Office.opening s).run {} before
    let content? (o : Office) : Option Payload := do
      return (← (← o.system.store.get? "a").record.variants.get .unpublished).content
    content? o = some (content 4259304194031319137) ∧
      (o.commits {} during).map Client.job = [copy] ∧
      content? (o.run {} during) = some (content 4259304194031319138) := by
  decide +kernel

end Editorial
