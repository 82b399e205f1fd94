import Editorial.Proofs.Hints.Allows
import Editorial.Proofs.Pipeline.Effect

/-!
# How an operation ends

Once the hints allow an operation, the standard table carries it out: it
succeeds by a rule of `Effect`, or something outside the handle stands in its
way. `Obstacle` lists what can. Besides these, an operation fails if a store or
folders do not answer, and on records that no check lets through: a draft over
a published variant alone, or two requests with one id.

## Main results

* `outcome_of_leads` — every end of an operation that the hints allow is an
  `Outcome`.
* `leads_fire_iff` — an operation succeeds exactly if the hints allow it, and
  exactly as the rules of `Effect` say.
-/

namespace Editorial

/-! ## What may stand in the way -/

/-- `Obstacle ctx h told op f` says that `op` on the handle `h` fails with `f`,
given the answers that `told` admits. -/
inductive Obstacle (ctx : Context) (h : Handle) (told : Taken → Prop) :
    Operation → Failure → Prop
  | content (hc : ctx.arguments.content = none) :
      Obstacle ctx h told .update (.argument (.missing "content"))
  | date {op : Operation} {kind : RequestKind} (hop : op.filed? = some kind)
      (hk : kind.isScheduled = true) (hd : ctx.arguments.date = none) :
      Obstacle ctx h told op (.argument (.missing "date"))
  | destination {op : Operation} (hop : op = .copy ∨ op = .move)
      (hc : ctx.arguments.destination = none) :
      Obstacle ctx h told op (.argument (.missing "destination"))
  | newName {op : Operation} (hop : op = .copy ∨ op = .move ∨ op = .rename)
      (hn : ctx.arguments.newName = none) :
      Obstacle ctx h told op (.argument (.missing "new name"))
  | folderUnknown {op : Operation} {container : String} (hop : op = .copy ∨ op = .move)
      (hc : ctx.arguments.destination = some container)
      (ht : told (.folder ctx.category container none)) :
      Obstacle ctx h told op (.state (.folderUnknown container ctx.category))
  | folderClosed {op : Operation} {container : String} {folder : Folder}
      (hop : op = .copy ∨ op = .move) (hc : ctx.arguments.destination = some container)
      (ht : told (.folder ctx.category container (some folder))) (hf : folder.embeds = false) :
      Obstacle ctx h told op (.state (.folderClosed container))
  | nameTaken {op : Operation} {container name other : String} (hop : op = .copy ∨ op = .move)
      (hc : ctx.arguments.destination = some container) (hn : ctx.arguments.newName = some name)
      (ht : told (.find ⟨container, name⟩ (some other))) (hother : other ≠ h.id) :
      Obstacle ctx h told op (.state (.nameTaken name container))
  | renameTaken {location : Location} {name other : String}
      (hl : h.record.location = some location) (hn : ctx.arguments.newName = some name)
      (ht : told (.find ⟨location.container, name⟩ (some other))) (hother : other ≠ h.id) :
      Obstacle ctx h told .rename (.state (.nameTaken name location.container))
  | onlyDraft (hu : h.variant? .unpublished = none) (hp : h.variant? .published = none) :
      Obstacle ctx h told .copy (.state (.contentMissing h.id))
  | timestamp {op : Operation}
      (hop : op = .restoreVersion ∨ op = .restoreVersionTo ∨ op = .retrieveVersion)
      (ht : ctx.arguments.timestamp = none) :
      Obstacle ctx h told op (.argument (.missing "timestamp"))
  | versionMissing {op : Operation} {t : Instant}
      (hop : op = .restoreVersion ∨ op = .restoreVersionTo ∨ op = .retrieveVersion)
      (ht : ctx.arguments.timestamp = some t)
      (hs : Snapshot.inForce? h.record.history t = none) :
      Obstacle ctx h told op (.versionMissing h.id t)
  | target (ht : ctx.arguments.target = none) :
      Obstacle ctx h told .restoreVersionTo (.argument (.missing "target"))
  | ownVariant {target : Reference} (htarget : ctx.arguments.target = some target)
      (hown : target.handle = h.id) (hv : h.variant? target.stage = none) :
      Obstacle ctx h told .restoreVersionTo (.state (.variantMissing h.id target.stage))
  | otherHandle {target : Reference} (htarget : ctx.arguments.target = some target)
      (hother : target.handle ≠ h.id) (ht : told (.load target.handle none)) :
      Obstacle ctx h told .restoreVersionTo (.handleMissing target.handle)
  | otherVariant {target : Reference} {stored : Stored}
      (htarget : ctx.arguments.target = some target) (hother : target.handle ≠ h.id)
      (ht : told (.load target.handle (some stored)))
      (hv : stored.record.variants.get target.stage = none) :
      Obstacle ctx h told .restoreVersionTo
        (.state (.variantMissing target.handle target.stage))
  | notDue {q : Request} {date : Instant} (hq : h.record.pending? = some q)
      (hdate : q.scheduledAt = some date) (hnow : ctx.arguments.now < date) :
      Obstacle ctx h told .runScheduled (.state (.notDue q.kind q.id q.scheduledAt))

/-- Obstacles are faults of the state or of the arguments, or something is missing. -/
theorem Obstacle.kind_mem {ctx : Context} {h : Handle} {told : Taken → Prop} {op : Operation}
    {f : Failure} (ho : Obstacle ctx h told op f) :
    f.kind ∈ [.invalidState, .invalidArgument, .versionNotFound, .handleNotFound] := by
  cases ho <;> simp [Failure.kind]

/-- No obstacle is taken for a denial. -/
theorem Obstacle.kind_ne {ctx : Context} {h : Handle} {told : Taken → Prop} {op : Operation}
    {f : Failure} (ho : Obstacle ctx h told op f) : f.kind ≠ .notAllowed := by
  intro he
  have hmem := ho.kind_mem
  rw [he] at hmem
  exact absurd hmem (by decide)

theorem Obstacle.mono {ctx : Context} {h : Handle} {told told' : Taken → Prop} {op : Operation}
    {f : Failure} (ho : Obstacle ctx h told op f) (hmono : ∀ t, told t → told' t) :
    Obstacle ctx h told' op f := by
  cases ho with
  | content hc => exact .content hc
  | date hop hk hd => exact .date hop hk hd
  | destination hop hc => exact .destination hop hc
  | newName hop hn => exact .newName hop hn
  | folderUnknown hop hc ht => exact .folderUnknown hop hc (hmono _ ht)
  | folderClosed hop hc ht hf => exact .folderClosed hop hc (hmono _ ht) hf
  | nameTaken hop hc hn ht hother => exact .nameTaken hop hc hn (hmono _ ht) hother
  | renameTaken hl hn ht hother => exact .renameTaken hl hn (hmono _ ht) hother
  | onlyDraft hu hp => exact .onlyDraft hu hp
  | timestamp hop ht => exact .timestamp hop ht
  | versionMissing hop ht hs => exact .versionMissing hop ht hs
  | target ht => exact .target ht
  | ownVariant htarget hown hv => exact .ownVariant htarget hown hv
  | otherHandle htarget hother ht => exact .otherHandle htarget hother (hmono _ ht)
  | otherVariant htarget hother ht hv => exact .otherVariant htarget hother (hmono _ ht) hv
  | notDue hq hdate hnow => exact .notDue hq hdate hnow

/-- Obstacles belong to the workflow: no task wraps them. -/
theorem Obstacle.leaving {ctx : Context} {h : Handle} {told : Taken → Prop} {op : Operation}
    {f : Failure} (ho : Obstacle ctx h told op f) (task : Task) : f.leaving op task = f := by
  cases ho <;> rfl

/-- A place or a folder was not looked up. -/
def Taken.Failed : Taken → Prop
  | ⟨.find _, answer⟩ => ∃ failure, answer = .error failure
  | ⟨.folder _ _, answer⟩ => ∃ failure, answer = .error failure
  | _ => False

/-- How an operation that the hints allow ends: what comes of it, or nothing if
it breaks off. -/
inductive Outcome (ctx : Context) (h : Handle) (op : Operation) (path : List Taken) :
    Option (Except Failure Unit × Work) → Prop
  | success {r : Record} {t : Transaction} (he : Effect ctx h op path r t) :
      Outcome ctx h op path (some (.ok (), ⟨h.withRecord r, t⟩))
  | obstacle {f : Failure} {w : Work} (ho : Obstacle ctx h (· ∈ path) op f) :
      Outcome ctx h op path (some (.error f, w))
  | unanswered {f : Failure} {w : Work} {t : Taken}
      (hop : op = .copy ∨ op = .move ∨ op = .rename) (ht : t ∈ path) (hf : t.Failed) :
      Outcome ctx h op path (some (.error f, w))
  | unloaded {f failure : Failure} {w : Work} {target : Reference} (hop : op = .restoreVersionTo)
      (htarget : ctx.arguments.target = some target) (hother : target.handle ≠ h.id)
      (ht : ⟨.load target.handle, .error failure⟩ ∈ path) :
      Outcome ctx h op path (some (.error f, w))
  | stranded {f : Failure} {w : Work} (hop : op = .commit)
      (hd : (h.variant? .draft).isSome) (hu : h.variant? .unpublished = none)
      (hp : (h.variant? .published).isSome) : Outcome ctx h op path (some (.error f, w))
  | undone {f : Failure} {w : Work} {id : String} {q : Request} (hop : op = .acceptRequest)
      (hid : ctx.arguments.request = some id) (hq : h.record.request? id = some q)
      (hcarry : h.canCarryOut q = false) : Outcome ctx h op path (some (.error f, w))
  | overflow {last : Snapshot} (hop : op = .version)
      (hlast : h.record.history.getLast? = some last)
      (hnext : last.timestamp.nextMicrosecond? = none) : Outcome ctx h op path none

theorem Operation.isRequestScoped_of_resolving {kind : RequestKind} {op : Operation}
    (hop : Operation.resolving? kind = some op) : op.isRequestScoped = false := by
  cases kind <;> cases hop <;> rfl

/-- A scheduled request that is not due has a date, and a later one. -/
theorem Request.exists_date_of_isDue_eq_false {q : Request} {now : Instant}
    (hs : q.kind.isScheduled = true) (hdue : q.isDue now = false) :
    ∃ date, q.scheduledAt = some date ∧ now < date := by
  cases hdate : q.scheduledAt with
  | none => simp [isDue, hs, hdate] at hdue
  | some date =>
      simp only [isDue, hs, hdate, Bool.true_and, Option.all_some, decide_eq_false_iff_not] at hdue
      exact ⟨date, rfl, Instant.not_le.1 hdue⟩

/-! ## What the guards make sure of -/

namespace Handle

variable {h : Handle} {op : Operation}

theorem exists_draft_of_allows
    (hop : op = .commit ∨ op = .dispose ∨ op = .update ∨ op = .unlock)
    (ha : h.allows op = true) : ∃ d, h.variant? .draft = some d := by
  rw [← Option.isSome_iff_exists]
  rcases hop with rfl | rfl | rfl | rfl
  · simp only [allows, Bool.and_eq_true] at ha
    exact ha.2.1
  · simp only [allows, Bool.and_eq_true] at ha
    exact ha.2.1.1
  · simp only [allows, Bool.and_eq_true] at ha
    exact ha.2.1
  · simp only [allows, Bool.and_eq_true, isHeldByOther, holder?] at ha
    cases hd : h.variant? .draft with
    | none => simp [hd] at ha
    | some d => rfl

theorem exists_unpublished_of_allows
    (hop : op = .dispose ∨ op = .publish ∨ op = .version ∨ op = .restoreVersion ∨
      op = .restoreVersionTo)
    (ha : h.allows op = true) : ∃ u, h.variant? .unpublished = some u := by
  rw [← Option.isSome_iff_exists]
  rcases hop with rfl | rfl | rfl | rfl | rfl
  · simp only [allows, Bool.and_eq_true] at ha
    exact ha.2.1.2
  · simp only [allows, isPublishable, Bool.and_eq_true] at ha
    exact ha.2.1.1
  · exact (Bool.and_eq_true_iff.1 ha).2
  · exact (Bool.and_eq_true_iff.1 ha).2
  · exact (Bool.and_eq_true_iff.1 ha).2

theorem published_eq_none_of_allows (ha : h.allows .publish = true) :
    h.variant? .published = none := by
  simp only [allows, isPublishable, Bool.and_eq_true, Bool.not_eq_true'] at ha
  exact Option.isSome_eq_false_iff.1 ha.2.1.2 |> Option.isNone_iff_eq_none.1

theorem exists_published_of_allows (ha : h.allows .depublish = true) :
    ∃ p, h.variant? .published = some p := by
  simp only [allows, Bool.and_eq_true] at ha
  exact Option.isSome_iff_exists.1 ha.2.1

theorem exists_location_of_allows (ha : h.allows .rename = true) :
    ∃ location, h.record.location = some location := by
  simp only [allows, Bool.and_eq_true] at ha
  exact Option.isSome_iff_exists.1 ha.2.1.1

/-- Some variant is left if the first two places are empty. -/
theorem exists_published_of_any (ha : h.allows op = true) (hd : h.variant? .draft = none)
    (hu : h.variant? .unpublished = none) : ∃ p, h.variant? .published = some p := by
  have hany : h.record.variants.any = true := (Bool.and_eq_true_iff.1 ha).1
  have hd' : h.record.variants.get .draft = none := hd
  have hu' : h.record.variants.get .unpublished = none := hu
  simp only [Variants.any, Stage.all, Variants.has, List.any_cons, List.any_nil, hd', hu',
    Option.isSome_none, Bool.false_or, Bool.or_false] at hany
  exact Option.isSome_iff_exists.1 hany

end Handle

namespace Table

open Act Process

variable {ctx : Context} {depth : Nat} {op : Operation} {h : Handle} {path : List Taken}
  {result : Option (Except Failure Unit × Work)}

/-! ## Editing -/

theorem outcome_obtain (ha : (Hints.ofHandle h).allows .obtain ctx.arguments.request = true)
    (hl : ((standard.fireWithin ctx (depth + 1) .obtain).on ⟨h, {}⟩).Leads path result) :
    Outcome ctx h .obtain path result := by
  cases hd : h.variant? .draft with
  | some d =>
      rw [on_obtain_held ha hd, leads_done] at hl
      obtain ⟨rfl, rfl⟩ := hl
      exact .success (.claim hd)
  | none =>
      cases hu : h.variant? .unpublished with
      | some u =>
          rw [on_obtain_unpublished ha hd hu] at hl
          simp only [leads_ask, leads_done] at hl
          obtain ⟨t, -, rfl, name, -, rfl, rfl, rfl⟩ := hl
          exact .success (.draft hd hu)
      | none =>
          have hg := (Hints.allows_eq h rfl _).symm.trans ha
          obtain ⟨p, hp⟩ := Handle.exists_published_of_any hg hd hu
          rw [on_obtain_published ha hd hu hp] at hl
          simp only [leads_ask, leads_done] at hl
          obtain ⟨t, -, rfl, name, -, rfl, t', -, rfl, name', -, rfl, rfl, rfl⟩ := hl
          exact .success (.draftPublished hd hu hp)

theorem outcome_commit (ha : (Hints.ofHandle h).allows .commit ctx.arguments.request = true)
    (hl : ((standard.fireWithin ctx (depth + 1) .commit).on ⟨h, {}⟩).Leads path result) :
    Outcome ctx h .commit path result := by
  have hg := (Hints.allows_eq h rfl _).symm.trans ha
  obtain ⟨d, hd⟩ := Handle.exists_draft_of_allows (by simp) hg
  cases hu : h.variant? .unpublished with
  | some u =>
      rw [on_commit_draft ha hd (by simp [hu]), hu] at hl
      simp only [leads_ask, leads_done] at hl
      obtain ⟨t, -, rfl, rfl, rfl⟩ := hl
      exact .success (.fold hd hu)
  | none =>
      cases hp : h.variant? .published with
      | none =>
          rw [on_commit_alone ha hd hu hp, leads_done] at hl
          obtain ⟨rfl, rfl⟩ := hl
          exact .success (.promote hd hu hp)
      | some p =>
          rw [on_commit_draft ha hd (by simp [hp]), hu, leads_done] at hl
          obtain ⟨rfl, rfl⟩ := hl
          exact .stranded rfl (by simp [hd]) hu (by simp [hp])

theorem outcome_dispose (ha : (Hints.ofHandle h).allows .dispose ctx.arguments.request = true)
    (hl : ((standard.fireWithin ctx (depth + 1) .dispose).on ⟨h, {}⟩).Leads path result) :
    Outcome ctx h .dispose path result := by
  have hg := (Hints.allows_eq h rfl _).symm.trans ha
  obtain ⟨d, hd⟩ := Handle.exists_draft_of_allows (by simp) hg
  obtain ⟨u, hu⟩ := Handle.exists_unpublished_of_allows (by simp) hg
  rw [on_dispose ha hd hu, leads_done] at hl
  obtain ⟨rfl, rfl⟩ := hl
  exact .success (.dispose hd hu)

theorem outcome_update (ha : (Hints.ofHandle h).allows .update ctx.arguments.request = true)
    (hl : ((standard.fireWithin ctx (depth + 1) .update).on ⟨h, {}⟩).Leads path result) :
    Outcome ctx h .update path result := by
  have hg := (Hints.allows_eq h rfl _).symm.trans ha
  obtain ⟨d, hd⟩ := Handle.exists_draft_of_allows (by simp) hg
  rw [on_update ha hd] at hl
  cases hc : ctx.arguments.content with
  | none =>
      rw [hc, leads_done] at hl
      obtain ⟨rfl, rfl⟩ := hl
      exact .obstacle (.content hc)
  | some content =>
      simp only [hc, leads_ask, leads_done] at hl
      obtain ⟨t, -, rfl, rfl, rfl⟩ := hl
      exact .success (.update hc hd)

theorem outcome_unlock (ha : (Hints.ofHandle h).allows .unlock ctx.arguments.request = true)
    (hl : ((standard.fireWithin ctx (depth + 1) .unlock).on ⟨h, {}⟩).Leads path result) :
    Outcome ctx h .unlock path result := by
  have hg := (Hints.allows_eq h rfl _).symm.trans ha
  obtain ⟨d, hd⟩ := Handle.exists_draft_of_allows (by simp) hg
  rw [on_unlock ha hd, leads_done] at hl
  obtain ⟨rfl, rfl⟩ := hl
  exact .success (.unlock hd)

/-! ## Publishing and deleting -/

/-- The operations that carry requests out have nothing in their way. -/
theorem effect_of_resolving {kind : RequestKind} (hop : Operation.resolving? kind = some op)
    (ha : (Hints.ofHandle h).allows op ctx.arguments.request = true)
    (hl : ((standard.fireWithin ctx (depth + 1) op).on ⟨h, {}⟩).Leads path result) :
    ∃ r t, result = some (.ok (), ⟨h.withRecord r, t⟩) ∧ Effect ctx h op path r t := by
  have hcases : op = .publish ∨ op = .depublish ∨ op = .delete := by
    cases kind <;> cases hop <;> simp
  rcases hcases with rfl | rfl | rfl
  · have hg := (Hints.allows_eq h rfl _).symm.trans ha
    obtain ⟨u, hu⟩ := Handle.exists_unpublished_of_allows (by simp) hg
    have hp := Handle.published_eq_none_of_allows hg
    rw [on_publish ha hu hp] at hl
    simp only [leads_ask, leads_done] at hl
    obtain ⟨t, -, rfl, name, -, rfl, t', -, rfl, rfl, rfl⟩ := hl
    exact ⟨_, _, rfl, .publish hu hp⟩
  · have hg := (Hints.allows_eq h rfl _).symm.trans ha
    obtain ⟨p, hp⟩ := Handle.exists_published_of_allows hg
    rw [on_depublish ha hp, leads_done] at hl
    obtain ⟨rfl, rfl⟩ := hl
    cases hu : h.variant? .unpublished with
    | some u => exact ⟨_, _, rfl, .withdraw hu hp⟩
    | none => exact ⟨_, _, rfl, .demote hu hp⟩
  · rw [on_delete ha, leads_done] at hl
    obtain ⟨rfl, rfl⟩ := hl
    exact ⟨_, _, rfl, .delete⟩

theorem outcome_resolving (kind : RequestKind) (hop : Operation.resolving? kind = some op)
    (ha : (Hints.ofHandle h).allows op ctx.arguments.request = true)
    (hl : ((standard.fireWithin ctx (depth + 1) op).on ⟨h, {}⟩).Leads path result) :
    Outcome ctx h op path result := by
  obtain ⟨r, t, rfl, he⟩ := effect_of_resolving hop ha hl
  exact .success he

/-! ## Filing requests -/

theorem outcome_filing {kind : RequestKind} (hop : op.filed? = some kind)
    (ha : (Hints.ofHandle h).allows op ctx.arguments.request = true)
    (hl : ((standard.fireWithin ctx (depth + 1) op).on ⟨h, {}⟩).Leads path result) :
    Outcome ctx h op path result := by
  rw [on_filing hop ha] at hl
  by_cases hdate : (kind.isScheduled && ctx.arguments.date.isNone) = true
  · rw [if_pos hdate, leads_done] at hl
    obtain ⟨rfl, rfl⟩ := hl
    rw [Bool.and_eq_true, Option.isNone_iff_eq_none] at hdate
    exact .obstacle (.date hop hdate.1 hdate.2)
  · rw [if_neg hdate] at hl
    simp only [leads_ask, leads_done] at hl
    obtain ⟨id, -, rfl, t, -, rfl, rfl, rfl⟩ := hl
    refine .success (.file hop fun hk => ?_)
    rw [hk, Bool.true_and, Bool.not_eq_true] at hdate
    exact Option.isNone_eq_false_iff.1 hdate

/-! ## Filing documents -/

/-- A place for the document is found, or there is an obstacle or no answer. -/
theorem leads_requireVacant {location : Location} {result : Option (Except Failure Unit × Work)}
    (hl : ((Task.requireVacant location).on ⟨h, {}⟩).Leads path result) :
    (∃ found, path = [.find location found] ∧ (found = none ∨ found = some h.id) ∧
        result = some (.ok (), ⟨h, {}⟩)) ∨
      ∃ f, result = some (.error f, ⟨h, {}⟩) ∧
        ((∃ other, other ≠ h.id ∧ .find location (some other) ∈ path ∧
            f = .state (.nameTaken location.name location.container)) ∨
          ∃ t ∈ path, t.Failed) := by
  rw [Task.on_requireVacant, leads_ask] at hl
  obtain ⟨answer, rest, rfl, hl⟩ := hl
  rcases answer with failure | _ | other
  · obtain ⟨rfl, rfl⟩ := (leads_done _ _ _).1 hl
    exact Or.inr ⟨failure, rfl, Or.inr ⟨_, List.mem_singleton_self _, failure, rfl⟩⟩
  · obtain ⟨rfl, rfl⟩ := (leads_done _ _ _).1 hl
    exact Or.inl ⟨none, rfl, Or.inl rfl, rfl⟩
  · by_cases hown : other = h.id
    · subst hown
      simp only [if_true, leads_done] at hl
      obtain ⟨rfl, rfl⟩ := hl
      exact Or.inl ⟨some h.id, rfl, Or.inr rfl, rfl⟩
    · simp only [if_neg hown, leads_done] at hl
      obtain ⟨rfl, rfl⟩ := hl
      exact Or.inr ⟨_, rfl, Or.inl ⟨other, hown, List.mem_singleton_self _, rfl⟩⟩

theorem leads_destination {result : Option (Except Failure Location × Work)}
    (hop : op = .copy ∨ op = .move)
    (hl : ((Task.destination ctx).on ⟨h, {}⟩).Leads path result) :
    (∃ container name folder found, ctx.arguments.destination = some container ∧
        ctx.arguments.newName = some name ∧ folder.embeds = true ∧
        (found = none ∨ found = some h.id) ∧
        path = [.folder ctx.category container (some folder), .find ⟨container, name⟩ found] ∧
        result = some (.ok ⟨container, name⟩, ⟨h, {}⟩)) ∨
      ∃ f, result = some (.error f, ⟨h, {}⟩) ∧
        (Obstacle ctx h (· ∈ path) op f ∨ ∃ t ∈ path, t.Failed) := by
  rw [Task.on_destination] at hl
  cases hc : ctx.arguments.destination with
  | none =>
      rw [hc] at hl
      obtain ⟨rfl, rfl⟩ := (leads_done _ _ _).1 hl
      exact Or.inr ⟨_, rfl, Or.inl (.destination hop hc)⟩
  | some container =>
      cases hn : ctx.arguments.newName with
      | none =>
          rw [hc, hn] at hl
          obtain ⟨rfl, rfl⟩ := (leads_done _ _ _).1 hl
          exact Or.inr ⟨_, rfl, Or.inl (.newName (by simpa [or_assoc] using Or.inl hop) hn)⟩
      | some name =>
          simp only [hc, hn, leads_ask] at hl
          obtain ⟨answer, rest, rfl, hl⟩ := hl
          rcases answer with failure | _ | folder
          · obtain ⟨rfl, rfl⟩ := (leads_done _ _ _).1 hl
            exact Or.inr ⟨_, rfl, Or.inr ⟨_, List.mem_singleton_self _, failure, rfl⟩⟩
          · obtain ⟨rfl, rfl⟩ := (leads_done _ _ _).1 hl
            exact Or.inr ⟨_, rfl, Or.inl (.folderUnknown hop hc (List.mem_singleton_self _))⟩
          · cases hf : folder.embeds with
            | false =>
                simp only [hf, Bool.false_eq_true, if_false, leads_done] at hl
                obtain ⟨rfl, rfl⟩ := hl
                exact Or.inr ⟨_, rfl,
                  Or.inl (.folderClosed hop hc (List.mem_singleton_self _) hf)⟩
            | true =>
                simp only [hf, if_true] at hl
                rw [leads_map] at hl
                obtain ⟨result', hl, rfl⟩ := hl
                rcases leads_requireVacant hl with ⟨found, rfl, hfree, rfl⟩ | ⟨f, rfl, hf'⟩
                · exact Or.inl ⟨container, name, folder, found, rfl, rfl, hf, hfree, rfl, rfl⟩
                · refine Or.inr ⟨f, rfl, ?_⟩
                  rcases hf' with ⟨other, hother, ht, rfl⟩ | ⟨t, ht, hfail⟩
                  · exact Or.inl (.nameTaken hop hc hn (List.mem_cons_of_mem _ ht) hother)
                  · exact Or.inr ⟨t, List.mem_cons_of_mem _ ht, hfail⟩

theorem outcome_copy (ha : (Hints.ofHandle h).allows .copy ctx.arguments.request = true)
    (hl : ((standard.fireWithin ctx (depth + 1) .copy).on ⟨h, {}⟩).Leads path result) :
    Outcome ctx h .copy path result := by
  rw [on_standard_single ha rfl, leads_map, Task.run, Task.on_runCopyDocument] at hl
  obtain ⟨result', hl, rfl⟩ := hl
  rcases (leads_bind _ _ _ _).1 hl with ⟨first, second, r, rfl, hl₁, hl₂⟩ | ⟨rfl, hl₁⟩
  · rcases leads_destination (Or.inl rfl) hl₁ with
      ⟨container, name, folder, found, hc, hn, hf, hfree, rfl, hr⟩ | ⟨f, hr, hf⟩
    · cases hr
      cases hv : (h.variant? .unpublished).or (h.variant? .published) with
      | none =>
          simp only [hv, leads_done] at hl₂
          obtain ⟨rfl, rfl⟩ := hl₂
          obtain ⟨hu, hp⟩ := Option.or_eq_none_iff.1 hv
          exact .obstacle (.onlyDraft hu hp)
      | some v =>
          simp only [hv, leads_ask, leads_done] at hl₂
          obtain ⟨id, -, rfl, t, -, rfl, vid, -, rfl, rfl, rfl⟩ := hl₂
          exact .success (.copy hc hn hf hfree hv)
    · cases hr
      obtain ⟨rfl, rfl⟩ := (leads_done _ _ _).1 hl₂
      rcases hf with hf | ⟨t, ht, hfail⟩
      · exact .obstacle (by rw [List.append_nil, hf.leaving]; exact hf)
      · exact .unanswered (by simp) (by rwa [List.append_nil]) hfail
  · rcases leads_destination (Or.inl rfl) hl₁ with
      ⟨_, _, _, _, _, _, _, _, _, hr⟩ | ⟨_, hr, _⟩ <;> cases hr

theorem outcome_move (ha : (Hints.ofHandle h).allows .move ctx.arguments.request = true)
    (hl : ((standard.fireWithin ctx (depth + 1) .move).on ⟨h, {}⟩).Leads path result) :
    Outcome ctx h .move path result := by
  rw [on_standard_single ha rfl, leads_map, Task.run, Task.on_runMoveDocument] at hl
  obtain ⟨result', hl, rfl⟩ := hl
  rcases (leads_bind _ _ _ _).1 hl with ⟨first, second, r, rfl, hl₁, hl₂⟩ | ⟨rfl, hl₁⟩
  · rcases leads_destination (Or.inr rfl) hl₁ with
      ⟨container, name, folder, found, hc, hn, hf, hfree, rfl, hr⟩ | ⟨f, hr, hf⟩
    · cases hr
      obtain ⟨rfl, rfl⟩ := (leads_done _ _ _).1 hl₂
      exact .success (.move hc hn hf hfree)
    · cases hr
      obtain ⟨rfl, rfl⟩ := (leads_done _ _ _).1 hl₂
      rcases hf with hf | ⟨t, ht, hfail⟩
      · exact .obstacle (by rw [List.append_nil, hf.leaving]; exact hf)
      · exact .unanswered (by simp) (by rwa [List.append_nil]) hfail
  · rcases leads_destination (Or.inr rfl) hl₁ with
      ⟨_, _, _, _, _, _, _, _, _, hr⟩ | ⟨_, hr, _⟩ <;> cases hr

theorem outcome_rename (ha : (Hints.ofHandle h).allows .rename ctx.arguments.request = true)
    (hl : ((standard.fireWithin ctx (depth + 1) .rename).on ⟨h, {}⟩).Leads path result) :
    Outcome ctx h .rename path result := by
  have hg := (Hints.allows_eq h rfl _).symm.trans ha
  obtain ⟨location, hloc⟩ := Handle.exists_location_of_allows hg
  rw [on_standard_single ha rfl, leads_map, Task.run, Task.on_runRenameDocument] at hl
  obtain ⟨result', hl, rfl⟩ := hl
  cases hn : ctx.arguments.newName with
  | none =>
      simp only [hn, leads_done] at hl
      obtain ⟨rfl, rfl⟩ := hl
      exact .obstacle (.newName (by simp) hn)
  | some name =>
      simp only [hn, hloc] at hl
      rcases (leads_bind _ _ _ _).1 hl with ⟨first, second, r, rfl, hl₁, hl₂⟩ | ⟨rfl, hl₁⟩
      · rcases leads_requireVacant hl₁ with ⟨found, rfl, hfree, hr⟩ | ⟨f, hr, hf⟩
        · cases hr
          obtain ⟨rfl, rfl⟩ := (leads_done _ _ _).1 hl₂
          exact .success (.rename hloc hn hfree)
        · cases hr
          obtain ⟨rfl, rfl⟩ := (leads_done _ _ _).1 hl₂
          rcases hf with ⟨other, hother, ht, rfl⟩ | ⟨t, ht, hfail⟩
          · have ho : Obstacle ctx h (· ∈ first ++ []) .rename
                (.state (.nameTaken name location.container)) :=
              .renameTaken hloc hn (List.mem_append_left _ ht) hother
            exact .obstacle ho
          · exact .unanswered (by simp) (List.mem_append_left _ ht) hfail
      · rcases leads_requireVacant hl₁ with ⟨_, _, _, hr⟩ | ⟨_, hr, _⟩ <;> cases hr

/-! ## Deciding about requests -/

/-- A request that can be carried out is: its operation succeeds without it. -/
theorem effect_of_carryOut {q : Request} (hcarry : h.canCarryOut q = true)
    (hl : ((Task.carryOut (standard.fireWithin ctx (depth + 1)) q).on ⟨h, {}⟩).Leads path
      result) :
    ∃ op r t, Operation.resolving? q.kind = some op ∧
      (h.withRecord (h.record.dropRequest q.id)).allows op = true ∧
      Effect ctx (h.withRecord (h.record.dropRequest q.id)) op path r t ∧
      result = some (.ok (), ⟨h.withRecord r, t⟩) := by
  obtain ⟨op, hop, hallows⟩ := (h.canCarryOut_iff q).1 hcarry
  have hscoped := Operation.isRequestScoped_of_resolving hop
  have ha : (Hints.ofHandle (h.withRecord (h.record.dropRequest q.id))).allows op
      ctx.arguments.request = true := (Hints.allows_eq _ hscoped _).trans hallows
  simp only [Task.on_carryOut, hop, Work.mapRecord_mk] at hl
  obtain ⟨r, t, rfl, he⟩ := effect_of_resolving hop ha hl
  exact ⟨op, r, t, hop, hallows, he, rfl⟩

theorem failure_of_carryOut {q : Request} (hcarry : h.canCarryOut q = false)
    (hl : ((Task.carryOut (standard.fireWithin ctx (depth + 1)) q).on ⟨h, {}⟩).Leads path
      result) : ∃ f w, result = some (.error f, w) := by
  rw [Task.on_carryOut] at hl
  cases hop : Operation.resolving? q.kind with
  | none =>
      rw [hop] at hl
      exact ⟨_, _, ((leads_done _ _ _).1 hl).2⟩
  | some op =>
      have hscoped := Operation.isRequestScoped_of_resolving hop
      have hdenied : (Hints.ofHandle (h.withRecord (h.record.dropRequest q.id))).allows op
          ctx.arguments.request = false := by
        rw [Hints.allows_eq _ hscoped, Bool.eq_false_iff]
        intro hallows
        rw [(h.canCarryOut_iff q).2 ⟨op, hop, hallows⟩] at hcarry
        cases hcarry
      simp only [hop, Work.mapRecord_mk, on_fireWithin, hdenied, Bool.false_eq_true, if_false,
        leads_done] at hl
      exact ⟨_, _, hl.2⟩

theorem outcome_acceptRequest
    (ha : (Hints.ofHandle h).allows .acceptRequest ctx.arguments.request = true)
    (hl : ((standard.fireWithin ctx (depth + 2) .acceptRequest).on ⟨h, {}⟩).Leads path result) :
    Outcome ctx h .acceptRequest path result := by
  obtain ⟨id, q, hid, hq⟩ := Hints.exists_request_of_allows rfl ha
  rw [on_standard_single ha rfl, leads_map, Task.run, Task.on_runAcceptRequest,
    Task.on_namedRequest] at hl
  obtain ⟨result', hl, rfl⟩ := hl
  simp only [hid, hq, bind_done] at hl
  have hcarried : (q.isDeferred ctx.arguments.now = false ∨ Task.scheduledKind? q.kind = none) →
      ((Task.carryOut (standard.fireWithin ctx (depth + 1)) q).on ⟨h, {}⟩).Leads path result' →
      Outcome ctx h .acceptRequest path
        (result'.map fun r => (r.1.mapError (Failure.leaving .acceptRequest .acceptRequest), r.2))
      := by
    intro hnow hl
    cases hcarry : h.canCarryOut q with
    | true =>
        obtain ⟨op, r, t, hop, hallows, he, rfl⟩ := effect_of_carryOut hcarry hl
        exact .success (.accept hid hq hnow hop hallows he)
    | false =>
        obtain ⟨f, w, rfl⟩ := failure_of_carryOut hcarry hl
        exact .undone rfl hid hq hcarry
  cases hdate : q.isDeferred ctx.arguments.now with
  | false =>
      simp only [hdate, Bool.false_eq_true, if_false] at hl
      exact hcarried (Or.inl hdate) hl
  | true =>
      cases hkind : Task.scheduledKind? q.kind with
      | none =>
          simp only [hdate, hkind, if_true] at hl
          exact hcarried (Or.inr hkind) hl
      | some kind =>
          simp only [hdate, hkind, if_true, Work.mapRecord_mk, leads_done] at hl
          obtain ⟨rfl, rfl⟩ := hl
          exact .success (.schedule hid hq hdate hkind)

theorem outcome_rejectRequest
    (ha : (Hints.ofHandle h).allows .rejectRequest ctx.arguments.request = true)
    (hl : ((standard.fireWithin ctx (depth + 1) .rejectRequest).on ⟨h, {}⟩).Leads path result) :
    Outcome ctx h .rejectRequest path result := by
  obtain ⟨id, q, hid, hq⟩ := Hints.exists_request_of_allows rfl ha
  rw [on_standard_single ha rfl, leads_map, Task.run, Task.on_runRejectRequest,
    Task.on_namedRequest] at hl
  obtain ⟨result', hl, rfl⟩ := hl
  simp only [hid, hq, bind_done, Work.mapRecord_mk, leads_done] at hl
  obtain ⟨rfl, rfl⟩ := hl
  exact .success (.reject hid hq)

theorem outcome_cancelRequest
    (ha : (Hints.ofHandle h).allows .cancelRequest ctx.arguments.request = true)
    (hl : ((standard.fireWithin ctx (depth + 1) .cancelRequest).on ⟨h, {}⟩).Leads path result) :
    Outcome ctx h .cancelRequest path result := by
  obtain ⟨id, q, hid, hq⟩ := Hints.exists_request_of_allows rfl ha
  rw [on_standard_single ha rfl, leads_map, Task.run, Task.on_runCancelRequest,
    Task.on_namedRequest] at hl
  obtain ⟨result', hl, rfl⟩ := hl
  simp only [hid, hq, bind_done, Work.mapRecord_mk, leads_done] at hl
  obtain ⟨rfl, rfl⟩ := hl
  exact .success (.cancel hid hq)

theorem outcome_runScheduled
    (ha : (Hints.ofHandle h).allows .runScheduled ctx.arguments.request = true)
    (hl : ((standard.fireWithin ctx (depth + 2) .runScheduled).on ⟨h, {}⟩).Leads path result) :
    Outcome ctx h .runScheduled path result := by
  have hg := (Hints.allows_eq h rfl _).symm.trans ha
  simp only [Handle.allows, Bool.and_eq_true, Option.any_eq_true] at hg
  obtain ⟨-, q, hq, hscheduled, hcarry⟩ := hg
  rw [on_standard_single ha rfl, leads_map, Task.run, Task.on_runScheduledRequest] at hl
  obtain ⟨result', hl, rfl⟩ := hl
  simp only [hq, Option.filter_some, hscheduled, if_true] at hl
  cases hdue : q.isDue ctx.arguments.now with
  | true =>
      simp only [hdue, if_true] at hl
      obtain ⟨op, r, t, hop, hallows, he, rfl⟩ := effect_of_carryOut hcarry hl
      exact .success (.runScheduled hq hdue hop hallows he)
  | false =>
      simp only [hdue, Bool.false_eq_true, if_false, leads_done] at hl
      obtain ⟨rfl, rfl⟩ := hl
      obtain ⟨date, hdate, hnow⟩ := Request.exists_date_of_isDue_eq_false hscheduled hdue
      exact .obstacle (.notDue hq hdate hnow)

/-! ## Versions -/

theorem outcome_version (ha : (Hints.ofHandle h).allows .version ctx.arguments.request = true)
    (hl : ((standard.fireWithin ctx (depth + 1) .version).on ⟨h, {}⟩).Leads path result) :
    Outcome ctx h .version path result := by
  have hg := (Hints.allows_eq h rfl _).symm.trans ha
  obtain ⟨u, hu⟩ := Handle.exists_unpublished_of_allows (by simp) hg
  rw [on_standard_single ha (rule_of_unpublished .takeVersion (by simp) hu), leads_map,
    Task.run, Task.on_runTakeVersion] at hl
  obtain ⟨result', hl, rfl⟩ := hl
  simp only [hu, leads_ask] at hl
  obtain ⟨now, rest, rfl, hl⟩ := hl
  cases ht : Task.snapshotTime h.record.history now with
  | some t =>
      simp only [ht, leads_done] at hl
      obtain ⟨rfl, rfl⟩ := hl
      exact .success (.version hu ht)
  | none =>
      simp only [ht, leads_broken] at hl
      obtain ⟨rfl, rfl⟩ := hl
      obtain ⟨last, hlast, -, hnext⟩ := Task.snapshotTime_eq_none_iff.1 ht
      exact .overflow rfl hlast hnext

/-- The snapshot that an operation names is found, or there is an obstacle. -/
theorem on_namedSnapshot_cases (ctx : Context) (h : Handle) (told : Taken → Prop)
    (hop : op = .restoreVersion ∨ op = .restoreVersionTo ∨ op = .retrieveVersion) :
    (∃ t s, ctx.arguments.timestamp = some t ∧ Snapshot.inForce? h.record.history t = some s ∧
        (Task.namedSnapshot ctx.arguments).on ⟨h, {}⟩ = done (.ok s, ⟨h, {}⟩)) ∨
      ∃ f, (Task.namedSnapshot ctx.arguments).on ⟨h, {}⟩ = done (.error f, ⟨h, {}⟩) ∧
        Obstacle ctx h told op f := by
  rw [Task.on_namedSnapshot]
  cases ht : ctx.arguments.timestamp with
  | none => exact Or.inr ⟨_, rfl, .timestamp hop ht⟩
  | some t =>
      cases hs : Snapshot.inForce? h.record.history t with
      | none =>
          refine Or.inr ⟨_, ?_, .versionMissing hop ht hs⟩
          simp only [hs]
      | some s =>
          refine Or.inl ⟨t, s, rfl, hs, ?_⟩
          simp only [hs]

theorem outcome_restoreVersion
    (ha : (Hints.ofHandle h).allows .restoreVersion ctx.arguments.request = true)
    (hl : ((standard.fireWithin ctx (depth + 1) .restoreVersion).on ⟨h, {}⟩).Leads path result) :
    Outcome ctx h .restoreVersion path result := by
  have hg := (Hints.allows_eq h rfl _).symm.trans ha
  obtain ⟨u, hu⟩ := Handle.exists_unpublished_of_allows (by simp) hg
  rw [on_standard_single ha (rule_of_unpublished .restoreVersion (by simp) hu), leads_map,
    Task.run, Task.on_runRestoreVersion] at hl
  obtain ⟨result', hl, rfl⟩ := hl
  rcases on_namedSnapshot_cases ctx h (· ∈ path) (Or.inl rfl) with
    ⟨t, s, ht, hs, hnamed⟩ | ⟨f, hnamed, ho⟩
  · simp only [hnamed, bind_done, hu, leads_ask, leads_done] at hl
    obtain ⟨now, -, rfl, rfl, rfl⟩ := hl
    exact .success (.restore ht hs hu)
  · simp only [hnamed, bind_done, leads_done] at hl
    obtain ⟨-, rfl⟩ := hl
    exact .obstacle (by rw [ho.leaving]; exact ho)

theorem outcome_restoreVersionTo
    (ha : (Hints.ofHandle h).allows .restoreVersionTo ctx.arguments.request = true)
    (hl : ((standard.fireWithin ctx (depth + 1) .restoreVersionTo).on ⟨h, {}⟩).Leads path
      result) : Outcome ctx h .restoreVersionTo path result := by
  have hg := (Hints.allows_eq h rfl _).symm.trans ha
  obtain ⟨u, hu⟩ := Handle.exists_unpublished_of_allows (by simp) hg
  rw [on_standard_single ha (rule_of_unpublished .restoreVersionTo (by simp) hu), leads_map,
    Task.run, Task.on_runRestoreVersionTo] at hl
  obtain ⟨result', hl, rfl⟩ := hl
  rcases on_namedSnapshot_cases ctx h (· ∈ path) (Or.inr (Or.inl rfl)) with
    ⟨t, s, ht, hs, hnamed⟩ | ⟨f, hnamed, ho⟩
  · rw [hnamed, bind_done] at hl
    cases htarget : ctx.arguments.target with
    | none =>
        simp only [htarget, leads_done] at hl
        obtain ⟨rfl, rfl⟩ := hl
        exact .obstacle (.target htarget)
    | some target =>
        by_cases hown : target.handle = h.id
        · cases hv : h.variant? target.stage with
          | none =>
              simp only [htarget, hown, if_true, hv, leads_done] at hl
              obtain ⟨rfl, rfl⟩ := hl
              exact .obstacle (.ownVariant htarget hown hv)
          | some v =>
              simp only [htarget, hown, if_true, hv, leads_ask, leads_done] at hl
              obtain ⟨now, -, rfl, rfl, rfl⟩ := hl
              exact .success (.restoreOwn ht hs htarget hown hv)
        · simp only [htarget, hown, if_false, leads_ask] at hl
          obtain ⟨answer, rest, rfl, hl⟩ := hl
          rcases answer with failure | _ | stored
          · obtain ⟨rfl, rfl⟩ := (leads_done _ _ _).1 hl
            exact .unloaded rfl htarget hown (List.mem_singleton_self _)
          · obtain ⟨rfl, rfl⟩ := (leads_done _ _ _).1 hl
            exact .obstacle (.otherHandle htarget hown (List.mem_singleton_self _))
          · cases hv : stored.record.variants.get target.stage with
            | none =>
                simp only [hv, leads_done] at hl
                obtain ⟨rfl, rfl⟩ := hl
                exact .obstacle
                  (.otherVariant htarget hown (List.mem_singleton_self _) hv)
            | some v =>
                simp only [hv, leads_ask, leads_done] at hl
                obtain ⟨now, -, rfl, rfl, rfl⟩ := hl
                exact .success (.restoreOther ht hs htarget hown hv)
  · simp only [hnamed, bind_done, leads_done] at hl
    obtain ⟨-, rfl⟩ := hl
    exact .obstacle (by rw [ho.leaving]; exact ho)

theorem outcome_retrieveVersion
    (ha : (Hints.ofHandle h).allows .retrieveVersion ctx.arguments.request = true)
    (hl : ((standard.fireWithin ctx (depth + 1) .retrieveVersion).on ⟨h, {}⟩).Leads path
      result) : Outcome ctx h .retrieveVersion path result := by
  rw [on_standard_single ha rfl, leads_map, Task.run, Task.on_runRetrieveVersion] at hl
  obtain ⟨result', hl, rfl⟩ := hl
  rcases on_namedSnapshot_cases ctx h (· ∈ path) (Or.inr (Or.inr rfl)) with
    ⟨t, s, ht, hs, hnamed⟩ | ⟨f, hnamed, ho⟩
  · simp only [hnamed, bind_done, leads_done] at hl
    obtain ⟨rfl, rfl⟩ := hl
    exact .success (.retrieveVersion ht hs)
  · simp only [hnamed, bind_done, leads_done] at hl
    obtain ⟨-, rfl⟩ := hl
    exact .obstacle (by rw [ho.leaving]; exact ho)

theorem outcome_listVersions
    (ha : (Hints.ofHandle h).allows .listVersions ctx.arguments.request = true)
    (hl : ((standard.fireWithin ctx (depth + 1) .listVersions).on ⟨h, {}⟩).Leads path result) :
    Outcome ctx h .listVersions path result := by
  rw [on_standard ha rfl, on_runTasks_nil, leads_done] at hl
  obtain ⟨rfl, rfl⟩ := hl
  exact .success .listVersions

/-! ## Every operation -/

/-- Every end of an operation that the hints allow is an outcome. -/
theorem outcome_of_leads (ha : (Hints.ofHandle h).allows op ctx.arguments.request = true)
    (hl : ((standard.fireWithin ctx (depth + 2) op).on ⟨h, {}⟩).Leads path result) :
    Outcome ctx h op path result := by
  cases op with
  | obtain => exact outcome_obtain ha hl
  | commit => exact outcome_commit ha hl
  | dispose => exact outcome_dispose ha hl
  | update => exact outcome_update ha hl
  | unlock => exact outcome_unlock ha hl
  | publish => exact outcome_resolving .publication rfl ha hl
  | schedulePublish => exact outcome_filing rfl ha hl
  | depublish => exact outcome_resolving .depublication rfl ha hl
  | scheduleDepublish => exact outcome_filing rfl ha hl
  | delete => exact outcome_resolving .deletion rfl ha hl
  | copy => exact outcome_copy ha hl
  | move => exact outcome_move ha hl
  | rename => exact outcome_rename ha hl
  | requestPublication => exact outcome_filing rfl ha hl
  | requestDepublication => exact outcome_filing rfl ha hl
  | requestDeletion => exact outcome_filing rfl ha hl
  | acceptRequest => exact outcome_acceptRequest ha hl
  | rejectRequest => exact outcome_rejectRequest ha hl
  | cancelRequest => exact outcome_cancelRequest ha hl
  | runScheduled => exact outcome_runScheduled ha hl
  | version => exact outcome_version ha hl
  | restoreVersion => exact outcome_restoreVersion ha hl
  | restoreVersionTo => exact outcome_restoreVersionTo ha hl
  | listVersions => exact outcome_listVersions ha hl
  | retrieveVersion => exact outcome_retrieveVersion ha hl

/-! ## Effects are reached -/

/-- The effects of an operation that fires no other one. -/
theorem leads_of_effect_single {r : Record} {t : Transaction}
    (hop : op ≠ .acceptRequest) (hop' : op ≠ .runScheduled)
    (ha : (Hints.ofHandle h).allows op ctx.arguments.request = true)
    (he : Effect ctx h op path r t) :
    ((standard.fireWithin ctx (depth + 1) op).on ⟨h, {}⟩).Leads path
      (some (.ok (), ⟨h.withRecord r, t⟩)) := by
  cases he with
  | claim hd => simp [on_obtain_held ha hd]
  | draft hd hu => simp [on_obtain_unpublished ha hd hu]
  | draftPublished hd hu hp => simp [on_obtain_published ha hd hu hp]
  | promote hd hu hp => simp [on_commit_alone ha hd hu hp]
  | fold hd hu => simp [on_commit_draft ha hd (by simp [hu]), hu]
  | dispose hd hu => simp [on_dispose ha hd hu]
  | update hc hd => simp [on_update ha hd, hc]
  | unlock hd => simp [on_unlock ha hd]
  | publish hu hp => simp [on_publish ha hu hp]
  | withdraw hu hp => simp [on_depublish ha hp, hu]
  | demote hu hp => simp [on_depublish ha hp, hu]
  | delete => simp [on_delete ha]
  | file hkind hdate =>
      rw [on_filing hkind ha, if_neg]
      · simp
      · rw [Bool.and_eq_true, Option.isNone_iff_eq_none]
        rintro ⟨hk, hd⟩
        have := hdate hk
        rw [hd] at this
        cases this
  | copy hc hn hf hfree hv =>
      rw [leads_standard_single ha rfl, Task.run, Task.on_runCopyDocument,
        Task.on_destination]
      rcases hfree with rfl | rfl <;> simp [hc, hn, hf, hv, Task.on_requireVacant, Except.map]
  | move hc hn hf hfree =>
      rw [leads_standard_single ha rfl, Task.run, Task.on_runMoveDocument,
        Task.on_destination]
      rcases hfree with rfl | rfl <;> simp [hc, hn, hf, Task.on_requireVacant, Except.map]
  | rename hl hn hfree =>
      rw [leads_standard_single ha rfl, Task.run, Task.on_runRenameDocument]
      rcases hfree with rfl | rfl <;> simp [hl, hn, Task.on_requireVacant]
  | schedule => exact absurd rfl hop
  | accept => exact absurd rfl hop
  | runScheduled => exact absurd rfl hop'
  | reject hid hq =>
      rw [leads_standard_single ha rfl, Task.run, Task.on_runRejectRequest,
        Task.on_namedRequest]
      simp [hid, hq]
  | cancel hid hq =>
      rw [leads_standard_single ha rfl, Task.run, Task.on_runCancelRequest,
        Task.on_namedRequest]
      simp [hid, hq]
  | version hu ht =>
      rw [leads_standard_single ha (rule_of_unpublished .takeVersion (by simp) hu), Task.run,
        Task.on_runTakeVersion]
      simp [hu, ht]
  | restore ht hs hu =>
      rw [leads_standard_single ha (rule_of_unpublished .restoreVersion (by simp) hu), Task.run,
        Task.on_runRestoreVersion, Task.on_namedSnapshot]
      simp [ht, hs, hu]
  | restoreOwn ht hs htarget hown hv =>
      have hg := (Hints.allows_eq h rfl _).symm.trans ha
      obtain ⟨u, hu⟩ := Handle.exists_unpublished_of_allows (by simp) hg
      rw [leads_standard_single ha (rule_of_unpublished .restoreVersionTo (by simp) hu), Task.run,
        Task.on_runRestoreVersionTo, Task.on_namedSnapshot]
      simp [ht, hs, htarget, hown, hv]
  | restoreOther ht hs htarget hother hv =>
      have hg := (Hints.allows_eq h rfl _).symm.trans ha
      obtain ⟨u, hu⟩ := Handle.exists_unpublished_of_allows (by simp) hg
      rw [leads_standard_single ha (rule_of_unpublished .restoreVersionTo (by simp) hu), Task.run,
        Task.on_runRestoreVersionTo, Task.on_namedSnapshot]
      simp [ht, hs, htarget, hother, hv]
  | listVersions => simp [on_standard ha rfl, on_runTasks_nil]
  | retrieveVersion ht hs =>
      rw [leads_standard_single ha rfl, Task.run, Task.on_runRetrieveVersion,
        Task.on_namedSnapshot]
      simp [ht, hs]

/-- A request is carried out as its operation says. -/
theorem leads_carryOut {q : Request} {r : Record} {t : Transaction}
    (hop : Operation.resolving? q.kind = some op)
    (hallows : (h.withRecord (h.record.dropRequest q.id)).allows op = true)
    (he : Effect ctx (h.withRecord (h.record.dropRequest q.id)) op path r t) :
    ((Task.carryOut (standard.fireWithin ctx (depth + 1)) q).on ⟨h, {}⟩).Leads path
      (some (.ok (), ⟨h.withRecord r, t⟩)) := by
  have hscoped := Operation.isRequestScoped_of_resolving hop
  have ha := (Hints.allows_eq _ hscoped ctx.arguments.request).trans hallows
  have haccept : op ≠ .acceptRequest := by
    rintro rfl
    cases hscoped
  have hrun : op ≠ .runScheduled := by
    rintro rfl
    cases hk : q.kind <;> rw [hk] at hop <;> cases hop
  simp only [Task.on_carryOut, hop, Work.mapRecord_mk]
  exact leads_of_effect_single haccept hrun ha he

/-- An effect of an operation that the hints allow is the end of the operation. -/
theorem leads_of_effect {r : Record} {t : Transaction}
    (ha : (Hints.ofHandle h).allows op ctx.arguments.request = true)
    (he : Effect ctx h op path r t) :
    ((standard.fireWithin ctx (depth + 2) op).on ⟨h, {}⟩).Leads path
      (some (.ok (), ⟨h.withRecord r, t⟩)) := by
  by_cases haccept : op = .acceptRequest
  · subst haccept
    rw [leads_standard_single ha rfl, Task.run, Task.on_runAcceptRequest, Task.on_namedRequest]
    cases he with
    | file hkind => cases hkind
    | schedule hid hq hdate hkind => simp [hid, hq, hdate, hkind]
    | accept hid hq hnow hop hallows hrest =>
        rcases hnow with hnow | hnow
        · simp only [hid, hq, hnow, bind_done, Bool.false_eq_true, if_false]
          exact leads_carryOut hop hallows hrest
        · simp only [hid, hq, hnow, bind_done, ite_self]
          exact leads_carryOut hop hallows hrest
  · by_cases hrun : op = .runScheduled
    · subst hrun
      rw [leads_standard_single ha rfl, Task.run, Task.on_runScheduledRequest]
      cases he with
      | file hkind => cases hkind
      | runScheduled hq hdue hop hallows hrest =>
          have hscheduled := (Bool.and_eq_true_iff.1 hdue).1
          simp only [hq, Option.filter_some, hscheduled, hdue, if_true]
          exact leads_carryOut hop hallows hrest
    · exact leads_of_effect_single haccept hrun ha he

/-! ## Firing -/

theorem on_fire_denied (ha : (Hints.ofHandle h).allows op ctx.arguments.request = false) :
    (standard.fire ctx op).on ⟨h, {}⟩ = done (.error (.denied op), ⟨h, {}⟩) := by
  rw [fire, depthLimit, on_fireWithin, ha, if_neg Bool.false_ne_true]

theorem outcome_of_leads_fire
    (ha : (Hints.ofHandle h).allows op ctx.arguments.request = true)
    (hl : ((standard.fire ctx op).on ⟨h, {}⟩).Leads path result) :
    Outcome ctx h op path result :=
  outcome_of_leads ha hl

/-- An operation breaks off only where there is no time left for a version. -/
theorem overflow_of_leads_fire (hl : ((standard.fire ctx op).on ⟨h, {}⟩).Leads path none) :
    op = .version ∧ ∃ last, h.record.history.getLast? = some last ∧
      last.timestamp.nextMicrosecond? = none := by
  cases ha : (Hints.ofHandle h).allows op ctx.arguments.request with
  | false =>
      rw [on_fire_denied ha] at hl
      cases ((leads_done _ _ _).1 hl).2
  | true =>
      cases outcome_of_leads_fire ha hl with
      | overflow hop hlast hnext => exact ⟨hop, _, hlast, hnext⟩

/-- An operation succeeds exactly if the hints allow it, and as the rules say. -/
theorem leads_fire_iff {w : Work} :
    ((standard.fire ctx op).on ⟨h, {}⟩).Leads path (some (.ok (), w)) ↔
      (Hints.ofHandle h).allows op ctx.arguments.request = true ∧
        ∃ r t, w = ⟨h.withRecord r, t⟩ ∧ Effect ctx h op path r t := by
  constructor
  · intro hl
    cases ha : (Hints.ofHandle h).allows op ctx.arguments.request with
    | false =>
        rw [on_fire_denied ha, leads_done] at hl
        cases hl.2
    | true =>
        cases outcome_of_leads_fire ha hl with
        | success he => exact ⟨rfl, _, _, rfl, he⟩
  · rintro ⟨ha, r, t, rfl, he⟩
    exact leads_of_effect ha he

end Table

end Editorial
