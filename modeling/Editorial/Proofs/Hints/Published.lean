import Editorial.Proofs.Hints.Requests

/-!
# What operations make of the text readers see

Readers see the published variant and no other. Most operations write some variant, and
which one is a matter of the rows of the table, so none of the tasks keeps them from
writing that one. It comes out that two of them do. Publishing puts a variant in its place
if there is none, with the content of the unpublished one, and taking a document offline
leaves the place empty. Requests come to nothing else, accepted or scheduled.

Writing a version into some variant is an operation of its own: the variant is named in its
arguments, and it may be the published one.

## Main results

* `Effect.shows` — what an operation makes of the published variant.
-/

namespace Editorial

/-- The operation `op` on the record `r` comes to `target`: it is that operation, it accepts
a request that `target` carries out, or it runs a scheduled one that is due. -/
inductive Operation.ComesTo (arguments : Arguments) (r : Record) :
    (op target : Operation) → Prop
  | itself {target : Operation} : ComesTo arguments r target target
  | accepted {target : Operation} {n : String} {q : Request}
      (hid : arguments.request = some n) (hq : r.request? n = some q)
      (hkind : Operation.resolving? q.kind = some target) (hwaits : q.kind.isScheduled = false) :
      ComesTo arguments r .acceptRequest target
  | ran {target : Operation} {q : Request} (hq : r.pending? = some q)
      (hkind : Operation.resolving? q.kind = some target)
      (hdue : q.isDue arguments.now = true) : ComesTo arguments r .runScheduled target

/-- What carries a request out comes to nothing else. -/
theorem Operation.ComesTo.eq_of_resolving {arguments : Arguments} {r : Record}
    {op target : Operation} {kind : RequestKind} (hop : Operation.resolving? kind = some op)
    (h : op.ComesTo arguments r target) : op = target := by
  cases h with
  | itself => rfl
  | accepted | ran => cases hk : kind <;> rw [hk] at hop <;> cases hop

/-- What `op` makes of the published variant of the document `id`, whose record is `r`. -/
inductive Shows (arguments : Arguments) (id : String) (r : Record) (op : Operation) :
    Record → Prop
  | kept {r' : Record} (hkept : r'.variants.get .published = r.variants.get .published) :
      Shows arguments id r op r'
  | published {r' : Record} {u p : Variant} (hop : op.ComesTo arguments r .publish)
      (hnone : r.variants.get .published = none) (hu : r.variants.get .unpublished = some u)
      (hu' : r'.variants.get .unpublished = some u)
      (hp : r'.variants.get .published = some p) (hcontent : p.content = u.content) :
      Shows arguments id r op r'
  | withdrawn {r' : Record} (hop : op.ComesTo arguments r .depublish)
      (hnone : r'.variants.get .published = none) : Shows arguments id r op r'
  | overwritten {r' : Record} (hop : op = .restoreVersionTo)
      (htarget : arguments.target = some ⟨id, .published⟩) : Shows arguments id r op r'

/-- An operation on the record without the request that it carries out. -/
theorem Shows.of_dropRequest {arguments : Arguments} {id n : String} {r r' : Record}
    {op outer : Operation} {kind : RequestKind} (hop : Operation.resolving? kind = some op)
    (hcomes : outer.ComesTo arguments r op) (h : Shows arguments id (r.dropRequest n) op r') :
    Shows arguments id r outer r' := by
  cases h with
  | kept hkept => exact .kept hkept
  | published htarget hnone hu hu' hp hcontent =>
      rw [htarget.eq_of_resolving hop] at hcomes
      exact .published hcomes hnone hu hu' hp hcontent
  | withdrawn htarget hnone =>
      rw [htarget.eq_of_resolving hop] at hcomes
      exact .withdrawn hcomes hnone
  | overwritten hrestore =>
      subst hrestore
      cases kind <;> cases hop

namespace Effect

variable {ctx : Context} {h : Handle} {op : Operation} {path : List Taken} {r : Record}
  {t : Transaction}

/-- What an operation makes of the published variant. -/
theorem shows (he : Effect ctx h op path r t)
    (ha : (Hints.ofHandle h).allows op ctx.arguments.request = true)
    (hids : (h.record.requests.map Request.id).Nodup) :
    Shows ctx.arguments h.id h.record op r := by
  -- Only what a request comes to needs the induction. Its ids are some of those before.
  induction he with
  | @publish h u now now' name hu hp =>
      let p : Variant := .entering .published name u.content h.user now (some now')
      have hp' : (h.record.variants.put .published (some p)).get .published = some p :=
        Variants.get_put_self ..
      have hu' : (h.record.variants.put .published (some p)).get .unpublished = some u :=
        (Variants.get_put_ne _ _ (by decide)).trans hu
      exact .published .itself hp hu hu' hp' rfl
  | withdraw hu hp => exact .withdrawn .itself (by simp)
  | demote hu hp => exact .withdrawn .itself (by simp)
  | @restoreOwn h v s t now target ht hs htarget hown hv =>
      rcases target with ⟨id, stage⟩
      by_cases hstage : stage = .published
      · subst hstage
        exact .overwritten rfl (by rw [htarget, show id = h.id from hown])
      · exact .kept (by simp [Ne.symm hstage])
  | @accept h n q op path r t hid hq hnow hop hallows hrest ih =>
      have hscoped := Operation.isRequestScoped_of_resolving hop
      rw [hid] at ha
      obtain ⟨-, -, hwaits⟩ := Handle.waits_of_allows hids (Or.inl rfl) ha hq
      have hrests := ih ((Hints.allows_eq _ hscoped _).trans hallows)
        (hids.sublist (List.filter_sublist.map _))
      exact hrests.of_dropRequest hop (.accepted hid hq hop hwaits)
  | @runScheduled h q op path r t hq hdue hop hallows hrest ih =>
      have hscoped := Operation.isRequestScoped_of_resolving hop
      have hrests := ih ((Hints.allows_eq _ hscoped _).trans hallows)
        (hids.sublist (List.filter_sublist.map _))
      exact hrests.of_dropRequest hop (.ran hq hop hdue)
  | claim | draft | draftPublished | promote | fold | dispose | update | unlock | restore =>
      exact .kept (by simp)
  | _ => exact .kept rfl

end Effect

end Editorial
