import Editorial.Proofs.Pipeline.Effect
import Editorial.Store.Basic

/-!
# What an operation reads is covered by what it commits

An operation decides on what it reads, and that may be outdated when it commits.
It reads little, and a commit puts all of it to the test. A record it loads
besides the one in hand is staged again at the revision it was loaded at. A place
it looks up is the one in which it files a record. Whether there is no record in
that place or the one in hand makes no difference to the operation.

## Main results

* `staged_of_load` and `placed_of_find` — what is read is covered.
* `Effect.staged` — what an operation stages.
* `Effect.foundIn` — the operation goes the same way if the places are looked up
  in another store in which they are vacant.
-/

namespace Editorial

/-- The step, with a place looked up in the store `s` instead. -/
def Taken.foundIn (s : Store) : Taken → Taken
  | ⟨.find location, _⟩ => .find location (s.find? location)
  | t => t

/-- Whether an operation on the record `own` writes another one besides. -/
def Operation.strays (arguments : Arguments) (own : String) : Operation → Bool
  | .copy => true
  | .restoreVersionTo => arguments.target.any fun target => target.handle ≠ own
  | _ => false

/-- What an operation on the handle `h` that takes the steps `path` and leaves the record `r`
stages: a new document, or another document with a version written into one of its variants,
or nothing. Only in the last case is the record in hand changed. -/
inductive Stages (ctx : Context) (h : Handle) (path : List Taken) :
    Operation → Record → List Change → Prop
  | nothing {op : Operation} {r : Record} (hstays : op.strays ctx.arguments h.id = false) :
      Stages ctx h path op r []
  | copy {v : Variant} {container name id vid : String} {t : Instant}
      (hc : ctx.arguments.destination = some container) (hn : ctx.arguments.newName = some name)
      (hfresh : .fresh .handle id ∈ path)
      (hv : (h.variant? .unpublished).or (h.variant? .published) = some v) :
      Stages ctx h path .copy h.record
        [.put (.single id (some ⟨container, name⟩)
          (.entering .unpublished vid v.content h.user t none)) none]
  | restore {target : Reference} {stored : Stored} {v : Variant} {content : Payload}
      {now : Instant} (htarget : ctx.arguments.target = some target)
      (hother : target.handle ≠ h.id) (hload : .load target.handle (some stored) ∈ path)
      (hv : stored.record.variants.get target.stage = some v) :
      Stages ctx h path .restoreVersionTo h.record
        [.put (stored.record.putVariant target.stage (some (v.withContent content h.user now)))
          (some stored.revision)]

/-- What carries a request out stages nothing. -/
theorem Stages.eq_nil_of_resolving {ctx : Context} {h : Handle} {path : List Taken}
    {op : Operation} {r : Record} {changes : List Change} {kind : RequestKind}
    (hs : Stages ctx h path op r changes) (hop : Operation.resolving? kind = some op) :
    changes = [] := by
  cases hs with
  | nothing => rfl
  | copy | restore => cases kind <;> cases hop

namespace Effect

variable {ctx : Context} {h : Handle} {op : Operation} {path : List Taken} {r : Record}
  {t : Transaction}

/-- An operation leaves the id of the record. -/
theorem id_eq (he : Effect ctx h op path r t) : r.id = h.id := by
  induction he with
  | accept hid hq hnow hop hallows hrest ih => exact ih
  | runScheduled hq hdue hop hallows hrest ih => exact ih
  | _ => rfl

/-- A record that is loaded is staged at the revision it was loaded at. -/
theorem staged_of_load (he : Effect ctx h op path r t) {id : String}
    {answer : Except Failure (Option Stored)} (hm : ⟨.load id, answer⟩ ∈ path) :
    ∃ stored, answer = .ok (some stored) ∧
      ∃ change ∈ t.staged, change.id = stored.record.id ∧
        change.expected? = some stored.revision := by
  induction he with
  | restoreOther ht hs htarget hother hv =>
      rcases List.mem_cons.1 hm with hm | hm
      · cases hm
        exact ⟨_, rfl, _, List.mem_singleton.2 rfl, rfl, rfl⟩
      · simp at hm
  | accept hid hq hnow hop hallows hrest ih => exact ih hm
  | runScheduled hq hdue hop hallows hrest ih => exact ih hm
  | _ => simp at hm

/-- No operation loads the record in hand again. -/
theorem id_ne_of_load (he : Effect ctx h op path r t) {id : String}
    {answer : Except Failure (Option Stored)} (hm : ⟨.load id, answer⟩ ∈ path) : id ≠ h.id := by
  induction he with
  | restoreOther ht hs htarget hother hv =>
      rcases List.mem_cons.1 hm with hm | hm
      · cases hm
        exact hother
      · simp at hm
  | accept hid hq hnow hop hallows hrest ih => exact ih hm
  | runScheduled hq hdue hop hallows hrest ih => exact ih hm
  | _ => simp at hm

/-- A place that is looked up is one in which a record is put, and the records
staged besides are new ones. -/
theorem placed_of_find (he : Effect ctx h op path r t) {location : Location}
    {answer : Except Failure (Option String)} (hm : ⟨.find location, answer⟩ ∈ path) :
    t.deletes = false ∧ (∀ change ∈ t.staged, change.expected? = none) ∧
      (r.location = some location ∨ ∃ change ∈ t.staged, change.location? = some location) := by
  induction he with
  | copy =>
      simp only [List.mem_cons, List.not_mem_nil, or_false] at hm
      rcases hm with hm | hm | hm | hm | hm <;> cases hm
      refine ⟨rfl, fun change hstaged => ?_, Or.inr ⟨_, List.mem_singleton.2 rfl, rfl⟩⟩
      rw [List.mem_singleton.1 hstaged]
      rfl
  | move =>
      simp only [List.mem_cons, List.not_mem_nil, or_false] at hm
      rcases hm with hm | hm <;> cases hm
      refine ⟨rfl, fun change hstaged => ?_, Or.inl rfl⟩
      cases hstaged
  | rename =>
      cases List.mem_singleton.1 hm
      refine ⟨rfl, fun change hstaged => ?_, Or.inl rfl⟩
      cases hstaged
  | accept hid hq hnow hop hallows hrest ih => exact ih hm
  | runScheduled hq hdue hop hallows hrest ih => exact ih hm
  | _ => simp at hm

/-- What an operation stages. -/
theorem staged (he : Effect ctx h op path r t) : Stages ctx h path op r t.staged := by
  induction he with
  | copy hc hn hf hfree hv =>
      exact .copy hc hn (List.mem_cons_of_mem _ (List.mem_cons_of_mem _ (List.mem_cons_self ..))) hv
  | restoreOther ht hs htarget hother hv =>
      exact .restore htarget hother (List.mem_cons_self ..) hv
  | restoreOwn ht hs htarget hown hv => exact .nothing (by simp [Operation.strays, htarget, hown])
  | @file h op kind id t hop hdate =>
      refine .nothing ?_
      cases op <;> first | rfl | cases hop
  | accept hid hq hnow hop hallows hrest ih | runScheduled hq hdue hop hallows hrest ih =>
      rw [ih.eq_nil_of_resolving hop]
      exact .nothing rfl
  | _ => exact .nothing rfl

/-- A record that is staged as a new one has a new name. -/
theorem fresh_of_staged (he : Effect ctx h op path r t) {change : Change}
    (hm : change ∈ t.staged) (hnew : change.expected? = none) :
    .fresh .handle change.id ∈ path := by
  have hstages := he.staged
  generalize t.staged = changes at hstages hm
  cases hstages with
  | nothing => cases hm
  | copy hc hn hfresh hv =>
      rw [List.mem_singleton.1 hm]
      exact hfresh
  | restore =>
      rw [List.mem_singleton.1 hm] at hnew
      cases hnew

/-- The operation goes the same way if the places it looks up are vacant in some
store, or have the record in hand. -/
theorem foundIn (he : Effect ctx h op path r t) {s : Store}
    (hfree : ∀ location answer, ⟨.find location, answer⟩ ∈ path →
      s.find? location = none ∨ s.find? location = some h.id) :
    Effect ctx h op (path.map (Taken.foundIn s)) r t := by
  induction he with
  | claim hd => exact .claim hd
  | draft hd hu => exact .draft hd hu
  | draftPublished hd hu hp => exact .draftPublished hd hu hp
  | promote hd hu hp => exact .promote hd hu hp
  | fold hd hu => exact .fold hd hu
  | dispose hd hu => exact .dispose hd hu
  | update hc hd => exact .update hc hd
  | unlock hd => exact .unlock hd
  | publish hu hp => exact .publish hu hp
  | withdraw hu hp => exact .withdraw hu hp
  | demote hu hp => exact .demote hu hp
  | delete => exact .delete
  | file hop hdate => exact .file hop hdate
  | copy hc hn hf _ hv =>
      exact .copy hc hn hf (hfree _ _ (List.mem_cons_of_mem _ (List.mem_cons_self ..))) hv
  | move hc hn hf _ =>
      exact .move hc hn hf (hfree _ _ (List.mem_cons_of_mem _ (List.mem_cons_self ..)))
  | rename hl hn _ => exact .rename hl hn (hfree _ _ (List.mem_cons_self ..))
  | schedule hid hq hdate hkind => exact .schedule hid hq hdate hkind
  | accept hid hq hnow hop hallows hrest ih => exact .accept hid hq hnow hop hallows (ih hfree)
  | reject hid hq => exact .reject hid hq
  | cancel hid hq => exact .cancel hid hq
  | runScheduled hq hdue hop hallows hrest ih => exact .runScheduled hq hdue hop hallows (ih hfree)
  | version hu ht => exact .version hu ht
  | restore ht hs hu => exact .restore ht hs hu
  | restoreOwn ht hs htarget hown hv => exact .restoreOwn ht hs htarget hown hv
  | restoreOther ht hs htarget hother hv => exact .restoreOther ht hs htarget hother hv
  | listVersions => exact .listVersions
  | retrieveVersion ht hs => exact .retrieveVersion ht hs

end Effect

end Editorial
