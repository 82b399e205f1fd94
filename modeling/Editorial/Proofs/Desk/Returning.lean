import Editorial.Proofs.Desk.Commits
import Editorial.Proofs.Desk.Settling
import Editorial.Proofs.Hints.Agreement
import Editorial.Proofs.Pipeline.History

/-!
# Replies that are stored

What a call answers is noted while its operation is carried out, before anything is
committed, and the tasks that come after the note still change the record. So it is not
plain that the reply is a view of what the commit puts in. It is: an operation either
notes the variant that it puts, or it changes other places of the record afterwards, as
folding a draft does, which notes the unpublished variant and then drops the draft.

A lost attempt notes something, too. But each attempt begins with an empty transaction,
and the reply is what the last one noted.

## Main results

* `Desk.settles_of_leads` — a call that was answered has committed what it prepared.
* `Desk.Prepares.answered` — the reply is a view of what the commit puts in.
-/

namespace Editorial

/-! ## What calls hand back -/

/-- The variant that an operation on the document `id` hands back. -/
def Operation.returns? (op : Operation) (id : String) (arguments : Arguments) :
    Option Reference :=
  match op with
  | .obtain | .update => some ⟨id, .draft⟩
  | .commit | .dispose | .restoreVersion => some ⟨id, .unpublished⟩
  | .restoreVersionTo => arguments.target
  | _ => none

namespace Call

/-- The variant that a call about the document `id` hands back. -/
def returns? (id : String) : Call → Option Reference
  | .obtain | .update _ => some ⟨id, .draft⟩
  | .commit | .dispose | .restoreVersion _ => some ⟨id, .unpublished⟩
  | .restoreVersionTo _ target => some target
  | _ => none

/-- The reply to a call about the document `id` is a view of what is stored, where
`stored?` has the stored documents by their ids. -/
inductive Answered (id : String) (stored? : String → Option Stored) : Call → Reply → Prop
  | done {call : Call} (hform : call.form? = some .change) : Answered id stored? call .done
  | variant {call : Call} {target : Reference} {stored : Stored} {v : Variant}
      (hreturns : call.returns? id = some target) (hstored : stored? target.handle = some stored)
      (hv : stored.record.variants.get target.stage = some v) :
      Answered id stored? call (.document (.ofVariant target.handle v))
  | snapshot {stored : Stored} {s : Snapshot} (hstored : stored? id = some stored)
      (hlast : stored.record.history.getLast? = some s) :
      Answered id stored? .version (.document (.ofSnapshot id s))
  | request {call : Call} {stored : Stored} {q : Request} (hform : call.form? = some .file)
      (hstored : stored? id = some stored) (hq : stored.record.pending? = some q) :
      Answered id stored? call (.request q.id)

variable {call : Call} {op : Operation} {arguments : Arguments}

/-- A call to take a version turns to nothing else. -/
theorem Asks.of_version (h : Call.version.Asks op arguments) : op = .version := by
  obtain ⟨-, begun, now, hturn⟩ := h
  cases hturn
  rfl

/-- A call hands back what its operation does. -/
theorem Asks.returns?_eq (h : call.Asks op arguments) (id : String) :
    call.returns? id = op.returns? id arguments := by
  obtain ⟨-, begun, now, hturn⟩ := h
  cases call with
  | publish date? => obtain ⟨rfl | rfl, -⟩ := of_turn?_publish hturn <;> rfl
  | depublish date? => obtain ⟨rfl | rfl, -⟩ := of_turn?_depublish hturn <;> rfl
  | hints => cases hturn
  | _ =>
      cases hturn
      rfl

/-- A call that files a request is for an operation that does. -/
theorem Asks.exists_filed (h : call.Asks op arguments) (hform : call.form? = some .file) :
    ∃ kind, op.filed? = some kind := by
  obtain ⟨-, begun, now, hturn⟩ := h
  cases call with
  | requestPublication | requestDepublication | requestDeletion =>
      cases hturn
      exact ⟨_, rfl⟩
  | _ => cases hform

/-- A call that hands back a document and changes something hands back a variant, or it
takes a version. -/
theorem eq_version_of_fetch (hform : call.form? = some .fetch) (hcall : call.isReadOnly = false)
    {id : String} (hreturns : call.returns? id = none) : call = .version := by
  cases call with
  | version => rfl
  | retrieveVersion timestamp => cases hcall
  | obtain | commit | dispose | update | restoreVersion | restoreVersionTo => cases hreturns
  | _ => cases hform

end Call

namespace Desk

variable {desk : Desk} {id user : String} {op : Operation} {arguments : Arguments} {call : Call}
  {reply : Reply}

/-! ## The commit behind a reply -/

/-- A call that may change something and was answered has committed what it prepared, and
the reply is what was noted with that. -/
theorem settles_of_leads (htable : desk.table = .standard) (hcall : call.isReadOnly = false)
    {path : List Taken}
    (hl : (desk.process (.call id user call)).Leads path (some (.ok (.reply reply)))) :
    ∃ op arguments t, call.Asks op arguments ∧ Concludes id op t (.ok reply) ∧
      desk.Settles id user op arguments path t := by
  rcases (mutates_answer hcall).leads_cases htable (leads_process_reply.1 hl) with
    ⟨-, hfailed⟩ | ⟨reply, op, arguments, t, hreply, hasks, hconcludes, hsettles⟩
  · exact absurd rfl (hfailed _)
  · cases hreply
    exact ⟨op, arguments, t, hasks, hconcludes, hsettles⟩

end Desk

/-! ## What a commit puts in -/

/-- Among the stored documents there are the record `r` of the document `id`, unless that
is removed, and the records that are staged. -/
structure Transaction.Deposited (t : Transaction) (id : String) (r : Record)
    (stored? : String → Option Stored) : Prop where
  own : t.deletes = false → ∃ revision, stored? id = some ⟨r, revision⟩
  staged : ∀ record revision, .put record (some revision) ∈ t.staged →
    stored? record.id = some ⟨record, revision + 1⟩

namespace Record

variable (r : Record)

theorem get_putVariant_self (stage : Stage) (v? : Option Variant) :
    (r.putVariant stage v?).variants.get stage = v? :=
  Variants.get_put_self ..

theorem get_putVariant_ne {stage other : Stage} (v? : Option Variant) (h : other ≠ stage) :
    (r.putVariant stage v?).variants.get other = r.variants.get other :=
  Variants.get_put_ne _ v? h

variable {r}

/-- A request that is filed while none is pending is the pending one. -/
theorem pending?_file (hnone : r.pending? = none) {q : Request} (hq : q.kind.isPending = true) :
    Record.pending? { r with requests := r.requests ++ [q] } = some q := by
  have hfound : [q].find? (fun q => q.kind.isPending) = some q := List.find?_cons_of_pos hq
  unfold pending? at hnone ⊢
  rw [List.find?_append, hnone, Option.none_or, hfound]

end Record

namespace Effect

variable {ctx : Context} {h : Handle} {op : Operation} {path : List Taken} {r : Record}
  {t : Transaction} {stored? : String → Option Stored}

/-- The variant that an operation hands back is in what it leaves. -/
theorem exists_variant (he : Effect ctx h op path r t) (hin : t.Deposited h.id r stored?)
    (hids : ∀ target loaded, .load target (some loaded) ∈ path → loaded.record.id = target)
    {target : Reference} (hreturns : op.returns? h.id ctx.arguments = some target) :
    ∃ stored v, stored? target.handle = some stored ∧
      stored.record.variants.get target.stage = some v ∧
      t.result = some (.ofVariant target.handle v) := by
  have hown : ∀ {v}, t.deletes = false → target.handle = h.id →
      r.variants.get target.stage = some v → ∃ stored, stored? target.handle = some stored ∧
        stored.record.variants.get target.stage = some v := by
    intro v hkeeps hthis hv
    obtain ⟨revision, hstored⟩ := hin.own hkeeps
    exact ⟨_, hthis ▸ hstored, hv⟩
  have hne : Stage.unpublished ≠ .draft := nofun
  cases he with
  | claim | draft | draftPublished | promote | update | restore =>
      cases hreturns
      obtain ⟨stored, hstored, hv⟩ := hown rfl rfl (Record.get_putVariant_self ..)
      exact ⟨stored, _, hstored, hv, rfl⟩
  | fold hd hu =>
      cases hreturns
      obtain ⟨stored, hstored, hv⟩ := hown rfl rfl
        ((Record.get_putVariant_ne _ none hne).trans (Record.get_putVariant_self ..))
      exact ⟨stored, _, hstored, hv, rfl⟩
  | dispose hd hu =>
      cases hreturns
      obtain ⟨stored, hstored, hv⟩ := hown rfl rfl
        ((Record.get_putVariant_ne _ none hne).trans hu)
      exact ⟨stored, _, hstored, hv, rfl⟩
  | restoreOwn ht hs htarget hthis hv =>
      obtain rfl := Option.some.inj (hreturns.symm.trans htarget)
      obtain ⟨stored, hstored, hv⟩ := hown rfl hthis (Record.get_putVariant_self ..)
      exact ⟨stored, _, hstored, hv, by rw [hthis]⟩
  | @restoreOther h v s _ now _ loaded ht hs htarget hother hv =>
      obtain rfl := Option.some.inj (hreturns.symm.trans htarget)
      have hload : loaded.record.id = target.handle := hids _ loaded (List.mem_cons_self ..)
      have hstored := hin.staged _ _ (List.mem_singleton_self _)
      exact ⟨_, _, hload ▸ hstored, Record.get_putVariant_self .., rfl⟩
  | file hop => cases op <;> cases hop <;> cases hreturns
  | _ => cases hreturns

/-- The snapshot that a version hands back is the last one of the history. -/
theorem exists_last (he : Effect ctx h .version path r t) (hin : t.Deposited h.id r stored?) :
    ∃ stored s, stored? h.id = some stored ∧ stored.record.history.getLast? = some s ∧
      t.result = some (.ofSnapshot h.id s) := by
  obtain ⟨s, hhistory, rfl⟩ := he.exists_snapshot
  obtain ⟨revision, hstored⟩ := hin.own rfl
  refine ⟨_, s, hstored, ?_, rfl⟩
  rw [hhistory, List.getLast?_concat]

/-- The request that an operation files is the one that is pending. -/
theorem exists_pending (he : Effect ctx h op path r t) (hin : t.Deposited h.id r stored?)
    (hallows : (Hints.ofHandle h).allows op ctx.arguments.request = true) {kind : RequestKind}
    (hop : op.filed? = some kind) :
    ∃ stored q, stored? h.id = some stored ∧ stored.record.pending? = some q ∧
      t.request = some q.id := by
  have hnone : h.record.pending? = none :=
    Handle.pending?_eq_none_of_allows hop
      ((Hints.allows_eq h (Operation.isRequestScoped_of_filed hop) _).symm.trans hallows)
  cases he with
  | @file h op kind' id now hop' hdate =>
      obtain ⟨revision, hstored⟩ := hin.own rfl
      refine ⟨_, ⟨id, kind', ctx.arguments.date, none, h.user, now⟩, hstored, ?_, rfl⟩
      have hpending : kind'.isPending = true := by cases op <;> cases hop' <;> rfl
      exact Record.pending?_file hnone hpending
  | _ => cases hop

end Effect

namespace Desk

variable {desk : Desk} {id user : String} {op : Operation} {arguments : Arguments} {call : Call}
  {reply : Reply} {path : List Taken} {changes : List Change} {t : Transaction}

/-- The reply is a view of what the commit puts in. -/
theorem Prepares.answered {stored? : String → Option Stored}
    (hp : desk.Prepares id user op arguments path changes t)
    (hids : ∀ target loaded, .load target (some loaded) ∈ path → loaded.record.id = target)
    (hput : ∀ record revision, .put record (some revision) ∈ changes →
      stored? record.id = some ⟨record, revision + 1⟩)
    (hcall : call.isReadOnly = false) (hasks : call.Asks op arguments)
    (hform : reply.form? = call.form?) (hconcludes : Concludes id op t (.ok reply)) :
    call.Answered id stored? reply := by
  cases hp with
  | @loaded loaded path r _ _ hallows heffect hchanges =>
      obtain rfl : loaded.record.id = id := hids _ loaded (List.mem_cons_self ..)
      have hin : t.Deposited loaded.record.id r stored? := by
        refine ⟨fun hkeeps => ?_, fun record revision hm => ?_⟩
        · rcases changes_cases hchanges with ⟨hdeletes, -⟩ | ⟨-, -, rfl⟩
          · cases hdeletes.symm.trans hkeeps
          · rw [← show r.id = loaded.record.id from heffect.id_eq]
            exact ⟨_, hput r loaded.revision (List.mem_cons_self ..)⟩
        · obtain ⟨first, rfl, -⟩ := exists_first hchanges
          exact hput record revision (List.mem_cons_of_mem _ hm)
      cases hconcludes with
      | done hback => exact .done hform.symm
      | request hback hq =>
          obtain ⟨kind, hop⟩ := hasks.exists_filed hform.symm
          obtain ⟨stored, q, hstored, hpending, hrequest⟩ := heffect.exists_pending hin hallows hop
          cases hrequest.symm.trans hq
          exact .request hform.symm hstored hpending
      | document hd =>
          cases hreturns : call.returns? loaded.record.id with
          | some target =>
              rw [hasks.returns?_eq] at hreturns
              obtain ⟨stored, v, hstored, hv, hresult⟩ := heffect.exists_variant hin
                (fun target loaded hm => hids target loaded (List.mem_cons_of_mem _ hm)) hreturns
              cases hresult.symm.trans hd
              rw [← hasks.returns?_eq] at hreturns
              exact .variant hreturns hstored hv
          | none =>
              obtain rfl := Call.eq_version_of_fetch hform.symm hcall hreturns
              obtain rfl := hasks.of_version
              obtain ⟨stored, s, hstored, hlast, hresult⟩ := heffect.exists_last hin
              cases hresult.symm.trans hd
              exact .snapshot hstored hlast

end Desk

end Editorial
