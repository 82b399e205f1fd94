import Editorial.Proofs.Hints.Agreement
import Editorial.Proofs.Pipeline.Reads

/-!
# Who may touch a draft that is held

The user who works on a draft holds it, and nobody else is to work on it until the
draft is set free. There is no one place where this is enforced. The operations that
change the draft are denied by their own guards, each of which looks at the holder, and
what removes the whole document is denied as well. Accepting a request and running a
scheduled one go through the guard of the operation they come to.

The guard of writing a version into some document does not look at the holder of the
draft, neither in the document in hand nor in another one. So such a draft can be
written over by anybody, and it stays in the hands of its holder then.

## Main results

* `Effect.left_of_held` — what becomes of the draft of the document in hand.
* `DraftLeft.exists_of_write` — what becomes of the draft when a version is written.
-/

namespace Editorial

/-- The operations that are denied to everybody but the holder of the draft, if to no
others. -/
def Operation.isForHolder : Operation → Bool
  | .obtain | .commit | .update | .dispose | .delete | .requestDeletion | .move | .rename => true
  | _ => false

namespace Handle

variable {h : Handle}

theorem isHeld_of_isHeldByOther (hheld : h.isHeldByOther = true) : h.isHeld = true := by
  unfold isHeldByOther at hheld
  unfold isHeld
  cases hholder : h.holder? with
  | none =>
      rw [hholder] at hheld
      cases hheld
  | some holder => rfl

theorem isHeldByOther_of_holder {d : Variant} {holder : String}
    (hd : h.variant? .draft = some d) (hholder : d.holder = some holder)
    (huser : h.user ≠ holder) : h.isHeldByOther = true := by
  have hholder? : h.holder? = some holder := by
    unfold holder?
    rw [hd]
    exact hholder
  unfold isHeldByOther
  rw [hholder?]
  simpa using huser.symm

/-- They are denied. -/
theorem allows_eq_false_of_isHeldByOther (hheld : h.isHeldByOther = true) {op : Operation}
    (hop : op.isForHolder = true) : h.allows op = false := by
  have hisHeld : h.isHeld = true := isHeld_of_isHeldByOther hheld
  cases op <;> cases hop <;> simp [allows, hheld, hisHeld]

end Handle

/-- What may become of the draft `d` of the document `id` if a user who does not hold it
carries out an operation on the document `own`, which may be this one or another. -/
inductive DraftLeft (user own : String) (op : Operation) (arguments : Arguments) (id : String)
    (d : Variant) : Variant → Prop
  | kept : DraftLeft user own op arguments id d d
  | released (hop : op = .unlock) (hown : own = id) :
      DraftLeft user own op arguments id d d.released
  | overwritten {content : Payload} {now : Instant} (hop : op = .restoreVersionTo)
      (htarget : arguments.target = some ⟨id, .draft⟩) :
      DraftLeft user own op arguments id d (d.withContent content user now)

/-- What carries a request out leaves the draft alone. -/
theorem DraftLeft.eq_of_resolving {user own : String} {op : Operation} {arguments : Arguments}
    {id : String} {d d' : Variant} {kind : RequestKind}
    (hop : Operation.resolving? kind = some op) (h : DraftLeft user own op arguments id d d') :
    d' = d := by
  cases h with
  | kept => rfl
  | released hunlock =>
      subst hunlock
      cases kind <;> cases hop
  | overwritten hrestore =>
      subst hrestore
      cases kind <;> cases hop

/-- What becomes of the draft of a document in which a version is written. -/
theorem DraftLeft.exists_of_write {user own : String} {arguments : Arguments}
    {target : Reference} (htarget : arguments.target = some target) {r : Record} {v d : Variant}
    (hv : r.variants.get target.stage = some v) (hd : r.variants.get .draft = some d)
    (content : Payload) (now : Instant) :
    ∃ d', (r.putVariant target.stage (some (v.withContent content user now))).variants.get .draft =
        some d' ∧ DraftLeft user own .restoreVersionTo arguments target.handle d d' := by
  rcases target with ⟨id, stage⟩
  by_cases hstage : stage = .draft
  · subst hstage
    cases hv.symm.trans hd
    exact ⟨v.withContent content user now, by simp, .overwritten rfl htarget⟩
  · exact ⟨d, by simpa [Ne.symm hstage] using hd, .kept⟩

namespace Effect

variable {ctx : Context} {h : Handle} {op : Operation} {path : List Taken} {r : Record}
  {t : Transaction}

/-- What becomes of the draft of the document in hand if somebody else holds it. -/
theorem left_of_held (he : Effect ctx h op path r t)
    (ha : (Hints.ofHandle h).allows op ctx.arguments.request = true) {d : Variant}
    (hd : h.variant? .draft = some d) (hheld : h.isHeldByOther = true) :
    t.deletes = false ∧ ∃ d', r.variants.get .draft = some d' ∧
      DraftLeft h.user h.id op ctx.arguments h.id d d' := by
  -- The induction is on the operation that a request comes to: it is allowed by its own
  -- guard on the record without the request, which has the same draft.
  induction he with
  | claim | draft | draftPublished | promote | fold | dispose | update | delete =>
      rw [Hints.allows_eq _ rfl, Handle.allows_eq_false_of_isHeldByOther hheld rfl] at ha
      cases ha
  | unlock hd' =>
      rw [hd] at hd'
      cases hd'
      exact ⟨rfl, _, by simp, .released rfl rfl⟩
  | restoreOwn ht hs htarget hown hv =>
      rw [← hown]
      exact ⟨rfl, DraftLeft.exists_of_write htarget hv hd _ _⟩
  | accept hid hq hnow hop hallows hrest ih | runScheduled hq hdue hop hallows hrest ih =>
      have hscoped := Operation.isRequestScoped_of_resolving hop
      obtain ⟨hkeeps, d', hd', hleft⟩ := ih ((Hints.allows_eq _ hscoped _).trans hallows) hd hheld
      rw [hleft.eq_of_resolving hop] at hd'
      exact ⟨hkeeps, d, hd', .kept⟩
  | publish | withdraw | demote | restore =>
      refine ⟨rfl, d, ?_, .kept⟩
      simpa using show Variants.get _ .draft = some d from hd
  | _ => exact ⟨rfl, d, hd, .kept⟩

end Effect

end Editorial
