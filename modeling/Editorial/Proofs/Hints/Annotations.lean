import Editorial.Proofs.Hints.Lock

/-!
# Who holds a variant and when it was published

A variant says who holds it and when it was published. The checks before a commit look at
neither. Variants are made, moved to other places, written over and removed by different
tasks, and each of them has to set or clear both: only a draft may be held, and a variant
has a time of publication exactly while it is the published one.

That a draft is held by nobody is the exception. Whoever makes a draft holds it, and so
does whoever obtains it. All other operations leave a draft in the hands it was in, except
that it is unlocked, which is for others than its holder.

## Main results

* `Effect.isAnnotated_record`, `Effect.isAnnotated_staged` — an operation leaves variants
  that say the right thing.
* `Effect.unheld` — where a draft comes from that nobody holds.
-/

namespace Editorial

/-- In the place of `stage` the variant may say what it says about its holder and its
publication. -/
structure Variant.IsAnnotated (stage : Stage) (v : Variant) : Prop where
  holder : v.holder.isSome = true → stage = .draft
  publishedAt : v.publishedAt.isSome = true ↔ stage = .published

/-- All variants of the record do. -/
def Record.IsAnnotated (r : Record) : Prop :=
  ∀ stage v, r.variants.get stage = some v → v.IsAnnotated stage

namespace Variant

variable {v : Variant} {stage : Stage}

theorem isAnnotated_entering (id : String) (content : Payload) (user : String) (now : Instant)
    {publishedAt : Option Instant} (h : publishedAt.isSome = true ↔ stage = .published) :
    (entering stage id content user now publishedAt).IsAnnotated stage := by
  refine ⟨fun hholder => ?_, h⟩
  by_cases hstage : stage = .draft
  · exact hstage
  · simp [entering, hstage] at hholder

/-- A variant that is moved to the unpublished place is neither held nor published. -/
theorem isAnnotated_moved (v : Variant) : (v.moved .unpublished none).IsAnnotated .unpublished :=
  ⟨nofun, nofun, nofun⟩

namespace IsAnnotated

theorem withContent (h : v.IsAnnotated stage) (content : Payload) (user : String)
    (now : Instant) : (v.withContent content user now).IsAnnotated stage :=
  ⟨h.holder, h.publishedAt⟩

theorem heldBy (h : v.IsAnnotated .draft) (user : String) : (v.heldBy user).IsAnnotated .draft :=
  ⟨fun _ => rfl, h.publishedAt⟩

theorem released (h : v.IsAnnotated .draft) : v.released.IsAnnotated .draft :=
  ⟨nofun, h.publishedAt⟩

end IsAnnotated

end Variant

namespace Record.IsAnnotated

variable {r : Record} {stage : Stage} {v : Variant}

theorem putSome (h : r.IsAnnotated) (hv : v.IsAnnotated stage) :
    (r.putVariant stage (some v)).IsAnnotated :=
  forall_get_putVariant h fun _ he => Option.some.inj he ▸ hv

theorem putNone (h : r.IsAnnotated) : (r.putVariant stage none).IsAnnotated :=
  forall_get_putVariant h fun _ => nofun

theorem single (id : String) (location : Option Location) (hv : v.IsAnnotated v.stage) :
    (Record.single id location v).IsAnnotated := by
  have hempty : (⟨id, location, .empty, [], []⟩ : Record).IsAnnotated := by
    intro stage _ hget
    cases stage <;> cases hget
  exact hempty.putSome hv

end Record.IsAnnotated

/-! ## Operations -/

namespace Effect

variable {ctx : Context} {h : Handle} {op : Operation} {path : List Taken} {r : Record}
  {t : Transaction}

/-- An operation leaves variants in its document that say the right thing. -/
theorem isAnnotated_record (he : Effect ctx h op path r t) (hrecord : h.record.IsAnnotated) :
    r.IsAnnotated := by
  have hunpublished : (none : Option Instant).isSome = true ↔ Stage.unpublished = .published :=
    ⟨nofun, nofun⟩
  have hdraft : (none : Option Instant).isSome = true ↔ Stage.draft = .published := ⟨nofun, nofun⟩
  induction he with
  | claim hd => exact hrecord.putSome ((hrecord _ _ hd).heldBy _)
  | draft hd hu => exact hrecord.putSome (Variant.isAnnotated_entering _ _ _ _ hdraft)
  | draftPublished hd hu hp =>
      refine .putSome (.putSome hrecord ?_) (Variant.isAnnotated_entering _ _ _ _ hdraft)
      exact Variant.isAnnotated_entering _ _ _ _ hunpublished
  | promote hd hu hp => exact hrecord.putNone.putSome (Variant.isAnnotated_moved _)
  | fold hd hu => exact .putNone (hrecord.putSome ((hrecord _ _ hu).withContent _ _ _))
  | dispose hd hu => exact hrecord.putNone
  | update hc hd => exact hrecord.putSome ((hrecord _ _ hd).withContent _ _ _)
  | unlock hd => exact hrecord.putSome (hrecord _ _ hd).released
  | publish hu hp =>
      exact hrecord.putSome (Variant.isAnnotated_entering _ _ _ _ ⟨fun _ => rfl, fun _ => rfl⟩)
  | withdraw hu hp => exact hrecord.putNone
  | demote hu hp => exact hrecord.putNone.putSome (Variant.isAnnotated_moved _)
  | restore ht hs hu => exact hrecord.putSome ((hrecord _ _ hu).withContent _ _ _)
  | restoreOwn ht hs htarget hown hv =>
      exact hrecord.putSome ((hrecord _ _ hv).withContent _ _ _)
  | accept hid hq hnow hop hallows hrest ih | runScheduled hq hdue hop hallows hrest ih =>
      exact ih hrecord
  | _ => exact hrecord

/-- So do the documents that it writes besides. -/
theorem isAnnotated_staged (he : Effect ctx h op path r t)
    (hloads : ∀ step ∈ path, step.Loads Record.IsAnnotated) : t.Stages Record.IsAnnotated := by
  have hstages := he.staged
  unfold Transaction.Stages
  generalize t.staged = changes at hstages
  cases hstages with
  | nothing => exact List.forall_mem_nil _
  | copy =>
      intro change hm
      rw [List.mem_singleton.1 hm]
      exact .single _ _ (Variant.isAnnotated_entering _ _ _ _ ⟨nofun, nofun⟩)
  | restore htarget hother hload hv =>
      intro change hm
      rw [List.mem_singleton.1 hm]
      have hloaded := hloads _ hload _ rfl
      exact hloaded.putSome ((hloaded _ _ hv).withContent _ _ _)

/-- If an operation leaves a draft that nobody holds, it is the draft that was there. Nobody
held it before, or it was unlocked; it was not obtained. -/
theorem unheld (he : Effect ctx h op path r t)
    (ha : (Hints.ofHandle h).allows op ctx.arguments.request = true) {d : Variant}
    (hd : r.variants.get .draft = some d) (hunheld : d.holder = none) :
    op ≠ .obtain ∧ ∃ d₀, h.variant? .draft = some d₀ ∧ d₀.id = d.id ∧
      (d₀.holder = none ∨ op = .unlock ∧ ∃ holder, d₀.holder = some holder ∧ holder ≠ h.user) := by
  induction he with
  | claim | draft | draftPublished =>
      -- A draft that is made or obtained is held by the user.
      simp only [Record.get_putVariant, if_true, Option.some.injEq] at hd
      rw [← hd] at hunheld
      cases hunheld
  | promote | fold | dispose => simp at hd
  | @update h d₀ content now hc hd' =>
      simp only [Record.get_putVariant, if_true, Option.some.injEq] at hd
      subst hd
      exact ⟨by decide, d₀, hd', rfl, Or.inl hunheld⟩
  | @unlock h d₀ hd' =>
      simp only [Record.get_putVariant, if_true, Option.some.injEq] at hd
      subst hd
      refine ⟨by decide, d₀, hd', rfl, Or.inr ⟨rfl, ?_⟩⟩
      have hg := (Hints.allows_eq h rfl _).symm.trans ha
      have hheld : h.isHeldByOther = true := (Bool.and_eq_true_iff.1 hg).2
      simpa [Handle.isHeldByOther, Handle.holder?, hd', Option.any_eq_true] using hheld
  | @publish h | @withdraw h | @demote h | @restore h =>
      have hd₀ : h.record.variants.get .draft = some d := by simpa using hd
      exact ⟨by decide, d, hd₀, rfl, Or.inl hunheld⟩
  | @restoreOwn h v s t' now target ht hs htarget hown hv =>
      by_cases hstage : Stage.draft = target.stage
      · rw [Record.get_putVariant, if_pos hstage] at hd
        cases hd
        exact ⟨by decide, v, hstage ▸ hv, rfl, Or.inl hunheld⟩
      · rw [Record.get_putVariant, if_neg hstage] at hd
        exact ⟨by decide, d, hd, rfl, Or.inl hunheld⟩
  | accept hid hq hnow hop hallows hrest ih | runScheduled hq hdue hop hallows hrest ih =>
      have hscoped := Operation.isRequestScoped_of_resolving hop
      obtain ⟨-, d₀, hd₀, hid', hheld⟩ := ih ((Hints.allows_eq _ hscoped _).trans hallows) hd
      refine ⟨by decide, d₀, hd₀, hid', Or.inl ?_⟩
      rcases hheld with hheld | ⟨rfl, -⟩
      · exact hheld
      · generalize Request.kind _ = kind at hop
        cases kind <;> cases hop
  | @file h op kind id now hop hdate =>
      refine ⟨?_, d, hd, rfl, Or.inl hunheld⟩
      rintro rfl
      cases hop
  | _ => exact ⟨by decide, d, hd, rfl, Or.inl hunheld⟩

end Effect

end Editorial
