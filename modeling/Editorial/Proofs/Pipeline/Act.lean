import Editorial.Pipeline.Fire
import Editorial.Proofs.Process.Path

/-!
# What an act does

An act is given the work in hand and takes its steps. `Act.on` is the process
it then is: a process that ends with the answer or the failure of the act,
together with the work as it was left. The equations below take an act apart
into the acts it is made of.
-/

namespace Editorial

namespace Handle

/-- The handle with another record. -/
def withRecord (h : Handle) (r : Record) : Handle := { h with record := r }

variable (h : Handle) (r r' : Record)

@[simp] theorem withRecord_self : h.withRecord h.record = h := rfl

@[simp] theorem record_withRecord : (h.withRecord r).record = r := rfl

@[simp] theorem user_withRecord : (h.withRecord r).user = h.user := rfl

@[simp] theorem revision_withRecord : (h.withRecord r).revision = h.revision := rfl

@[simp] theorem withRecord_withRecord : (h.withRecord r).withRecord r' = h.withRecord r' := rfl

@[simp] theorem id_withRecord : (h.withRecord r).id = r.id := rfl

@[simp] theorem variant?_withRecord (stage : Stage) :
    (h.withRecord r).variant? stage = r.variants.get stage := rfl

theorem has_eq (stage : Stage) : h.record.variants.has stage = (h.variant? stage).isSome := rfl

end Handle

namespace Record

variable (r : Record) (stage other : Stage) (v? : Option Variant)

@[simp] theorem id_putVariant : (r.putVariant stage v?).id = r.id := rfl

@[simp] theorem get_putVariant :
    (r.putVariant stage v?).variants.get other =
      if other = stage then v? else r.variants.get other :=
  Variants.get_put _ _ _ _

/-- What holds of all variants in their places holds of them after one is put. -/
theorem forall_get_putVariant {r : Record} {stage : Stage} {v? : Option Variant}
    {P : Stage → Variant → Prop} (h : ∀ other v, r.variants.get other = some v → P other v)
    (hv : ∀ v, v? = some v → P stage v) :
    ∀ other v, (r.putVariant stage v?).variants.get other = some v → P other v := by
  intro other v hget
  rw [get_putVariant] at hget
  by_cases hother : other = stage
  · rw [if_pos hother] at hget
    exact hother ▸ hv v hget
  · rw [if_neg hother] at hget
    exact h other v hget

end Record

/-- The work with a changed record. -/
def Work.mapRecord (w : Work) (f : Record → Record) : Work :=
  { w with handle := w.handle.withRecord (f w.handle.record) }

@[simp] theorem Work.mapRecord_mk (h : Handle) (t : Transaction) (f : Record → Record) :
    (⟨h, t⟩ : Work).mapRecord f = ⟨h.withRecord (f h.record), t⟩ := rfl

namespace Act

variable {α β : Type}

/-- The process that an act on the work in hand is. -/
def on (a : Act α) (w : Work) : Process (Except Failure α × Work) := StateT.run (ExceptT.run a) w

@[simp] theorem on_pure (x : α) (w : Work) : (pure x : Act α).on w = .done (.ok x, w) := rfl

@[simp] theorem on_throw (failure : Failure) (w : Work) :
    (throw failure : Act α).on w = .done (.error failure, w) := rfl

@[simp] theorem on_handle (w : Work) : handle.on w = .done (.ok w.handle, w) := rfl

@[simp] theorem on_changeRecord (f : Record → Record) (w : Work) :
    (changeRecord f).on w = .done (.ok (), w.mapRecord f) := rfl

@[simp] theorem on_changeTransaction (f : Transaction → Transaction) (w : Work) :
    (changeTransaction f).on w = .done (.ok (), { w with transaction := f w.transaction }) := rfl

theorem on_bind (a : Act α) (f : α → Act β) (w : Work) :
    (a >>= f).on w = (a.on w).bind fun r =>
      match r.1 with
      | .ok x => (f x).on r.2
      | .error failure => .done (.error failure, r.2) := by
  show Process.bind (a w) _ = Process.bind (a w) _
  congr 1
  funext r
  rcases r with ⟨_ | _, _⟩ <;> rfl

theorem on_liftM (p : Process α) (w : Work) :
    (liftM p : Act α).on w = p.bind fun a => .done (.ok a, w) := by
  show Process.bind (Process.bind p (fun a => Process.done (a, w)))
    (fun r => Process.done ((Except.ok r.1 : Except Failure α), r.2)) = _
  rw [Process.bind_assoc]
  rfl

theorem on_adapt (a : Act α) (f : Failure → Failure) (w : Work) :
    on (ExceptT.adapt f a : Act α) w = (a.on w).bind fun r => .done (r.1.mapError f, r.2) := rfl

@[simp] theorem on_ite (c : Prop) [Decidable c] (a b : Act α) (w : Work) :
    (if c then a else b).on w = if c then a.on w else b.on w := by
  split <;> rfl

/-! ## Single steps -/

@[simp] theorem on_now (w : Work) :
    (liftM Process.now : Act Instant).on w = .ask .now fun t => .done (.ok t, w) := by
  rw [on_liftM]
  rfl

@[simp] theorem on_fresh (kind : NameKind) (w : Work) :
    (liftM (Process.fresh kind) : Act String).on w =
      .ask (.fresh kind) fun name => .done (.ok name, w) := by
  rw [on_liftM]
  rfl

@[simp] theorem on_find (location : Location) (w : Work) :
    (ofFlow (Flow.find location)).on w =
      .ask (.find location) fun answer => .done (answer, w) := rfl

@[simp] theorem on_folder (category container : String) (w : Work) :
    (ofFlow (Flow.folder category container)).on w =
      .ask (.folder category container) fun answer => .done (answer, w) := rfl

@[simp] theorem on_load (id : String) (w : Work) :
    (ofFlow (Flow.load id)).on w = .ask (.load id) fun answer => .done (answer, w) := rfl

/-! ## Small acts -/

theorem on_require (what : String) (given : Option α) (w : Work) :
    (require what given).on w =
      match given with
      | some a => .done (.ok a, w)
      | none => .done (.error (.argument (.missing what)), w) := by
  cases given <;> rfl

theorem on_requireVariant (stage : Stage) (w : Work) :
    (requireVariant stage).on w =
      match w.handle.variant? stage with
      | some v => .done (.ok v, w)
      | none => .done (.error (.state (.variantMissing w.handle.id stage)), w) := by
  unfold requireVariant
  simp only [on_bind, on_handle, Process.bind_done]
  cases w.handle.variant? stage <;> rfl

@[simp] theorem on_setResult (d : Document) (w : Work) :
    (setResult d).on w =
      .done (.ok (), { w with transaction := { w.transaction with result := some d } }) := rfl

@[simp] theorem on_stage (change : Change) (w : Work) :
    (stage change).on w =
      .done (.ok (),
        { w with transaction :=
            { w.transaction with staged := w.transaction.staged ++ [change] } }) := rfl

end Act

end Editorial
