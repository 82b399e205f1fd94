import Editorial.Proofs.Pipeline.Careful
import Editorial.Proofs.Pipeline.Effect
import Editorial.Proofs.Store.Reading

/-!
# No content is made up

Operations carry contents about: from one variant of a document to another, into its
history and back, and into other documents. But the only content that is new is the one
that an update is given. So what is true of all contents, in what is loaded and in what is
given, is true of all contents afterwards: no double gets into a document on the way, and
no content that is nested deeper than those before it.

## Main results

* `Effect.allContents_record` and `Effect.allContents_staged` — an operation keeps what is
  true of all contents.
-/

namespace Editorial

/-! ## Records -/

namespace Record.AllContents

variable {P : Payload → Prop} {r : Record} {stage : Stage} {v? : Option Variant}

theorem putVariant (h : r.AllContents P) (hv : ∀ v, v? = some v → P v.content) :
    (r.putVariant stage v?).AllContents P :=
  ⟨forall_get_putVariant h.variants hv, h.history⟩

theorem putSome (h : r.AllContents P) {v : Variant} (hv : P v.content) :
    (r.putVariant stage (some v)).AllContents P :=
  h.putVariant fun _ he => Option.some.inj he ▸ hv

theorem putNone (h : r.AllContents P) : (r.putVariant stage none).AllContents P :=
  h.putVariant fun _ => nofun

theorem single (id : String) (location : Option Location) {v : Variant} (hv : P v.content) :
    (Record.single id location v).AllContents P := by
  have hempty : (⟨id, location, .empty, [], []⟩ : Record).AllContents P := by
    refine ⟨fun stage _ hget => ?_, List.forall_mem_nil _⟩
    cases stage <;> cases hget
  exact hempty.putSome hv

/-- A snapshot that is found in the history is one of it. -/
theorem of_inForce? (h : r.AllContents P) {t : Instant} {s : Snapshot}
    (hs : Snapshot.inForce? r.history t = some s) : P s.content :=
  h.history s (List.mem_reverse.1 (List.mem_of_find?_eq_some hs))

end Record.AllContents

/-! ## Operations -/

theorem Operation.resolving?_ne_update (kind : RequestKind) : resolving? kind ≠ some .update := by
  cases kind <;> exact nofun

namespace Effect

variable {P : Payload → Prop} {ctx : Context} {h : Handle} {op : Operation} {path : List Taken}
  {r : Record} {t : Transaction}

/-- An operation writes into its document what is there, or what it is given. -/
theorem allContents_record (he : Effect ctx h op path r t) (hrecord : h.record.AllContents P)
    (hgiven : op = .update → ∀ content, ctx.arguments.content = some content → P content) :
    r.AllContents P := by
  induction he with
  | claim hd | unlock hd =>
      have hcontent := hrecord.variants _ _ hd
      exact .putSome hrecord hcontent
  | draft hd hu =>
      have hcontent := hrecord.variants _ _ hu
      exact .putSome hrecord hcontent
  | draftPublished hd hu hp =>
      have hcontent := hrecord.variants _ _ hp
      refine .putSome (.putSome hrecord ?_) ?_ <;> exact hcontent
  | promote hd hu hp =>
      have hcontent := hrecord.variants _ _ hd
      exact .putSome hrecord.putNone hcontent
  | fold hd hu =>
      have hcontent := hrecord.variants _ _ hd
      exact .putNone (.putSome hrecord hcontent)
  | dispose hd hu => exact hrecord.putNone
  | update hc hd => exact .putSome hrecord (hgiven rfl _ hc)
  | publish hu hp =>
      have hcontent := hrecord.variants _ _ hu
      exact .putSome hrecord hcontent
  | withdraw hu hp => exact hrecord.putNone
  | demote hu hp =>
      have hcontent := hrecord.variants _ _ hp
      exact .putSome hrecord.putNone hcontent
  | version hu ht =>
      refine ⟨hrecord.variants, fun s hm => ?_⟩
      rcases List.mem_append.1 hm with hm | hm
      · exact hrecord.history s hm
      · rw [List.mem_singleton.1 hm]
        exact hrecord.variants _ _ hu
  | restore ht hs hu => exact .putSome hrecord (hrecord.of_inForce? hs)
  | restoreOwn ht hs htarget hown hv => exact .putSome hrecord (hrecord.of_inForce? hs)
  | accept hid hq hnow hop hallows hrest ih | runScheduled hq hdue hop hallows hrest ih =>
      refine ih ⟨hrecord.variants, hrecord.history⟩ ?_
      rintro rfl
      exact absurd hop (Operation.resolving?_ne_update _)
  | _ => exact ⟨hrecord.variants, hrecord.history⟩

/-- An operation writes into other documents what is in its own, beside what is in them. -/
theorem allContents_staged (he : Effect ctx h op path r t) (hrecord : h.record.AllContents P)
    (hloads : ∀ step ∈ path, step.Loads (Record.AllContents P)) :
    t.Stages (Record.AllContents P) := by
  induction he with
  | @copy h v container name folder found id vid t hc hn hf hfree hv =>
      have hcontent : P v.content := by
        cases hu : h.variant? .unpublished with
        | some u =>
            rw [hu, Option.some_or] at hv
            exact Option.some.inj hv ▸ hrecord.variants _ _ hu
        | none =>
            rw [hu, Option.none_or] at hv
            exact hrecord.variants _ _ hv
      intro change hm
      rw [List.mem_singleton.1 hm]
      exact .single _ _ hcontent
  | restoreOther ht hs htarget hother hv =>
      intro change hm
      rw [List.mem_singleton.1 hm]
      have hloaded := hloads _ (List.mem_cons_self ..) _ rfl
      exact hloaded.putSome (hrecord.of_inForce? hs)
  | accept hid hq hnow hop hallows hrest ih | runScheduled hq hdue hop hallows hrest ih =>
      exact ih ⟨hrecord.variants, hrecord.history⟩ hloads
  | _ => exact List.forall_mem_nil _

end Effect

end Editorial
