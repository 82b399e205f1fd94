import Editorial.Proofs.Pipeline.Fire

/-!
# What operations do

The standard table carries every operation out by some pipeline. Here is what
that comes to, one rule for each way an operation can go: the steps taken, the
record that is left and what is noted besides. Accepting a request and running
a scheduled one go the way of another operation, on the record without the
request.

The rules leave out whether the hints allow the operation at all. That they are
the right ones is proved in `Editorial.Proofs.Pipeline.Outcome`.
-/

namespace Editorial

/-- `Effect ctx h op path r t` says that `op`, carried out on the handle `h`,
may take the steps `path` and then leaves the record `r` and the transaction
`t`. -/
inductive Effect (ctx : Context) :
    Handle → Operation → List Taken → Record → Transaction → Prop
  | claim {h : Handle} {d : Variant} (hd : h.variant? .draft = some d) :
      Effect ctx h .obtain [] (h.record.putVariant .draft (some (d.heldBy h.user)))
        { result := some (.ofVariant h.id (d.heldBy h.user)) }
  | draft {h : Handle} {u : Variant} {t : Instant} {name : String}
      (hd : h.variant? .draft = none) (hu : h.variant? .unpublished = some u) :
      Effect ctx h .obtain [.now t, .fresh .variant name]
        (h.record.putVariant .draft (some (.entering .draft name u.content h.user t none)))
        { result := some (.ofVariant h.id (.entering .draft name u.content h.user t none)) }
  | draftPublished {h : Handle} {p : Variant} {t t' : Instant} {name name' : String}
      (hd : h.variant? .draft = none) (hu : h.variant? .unpublished = none)
      (hp : h.variant? .published = some p) :
      Effect ctx h .obtain
        [.now t, .fresh .variant name, .now t', .fresh .variant name']
        ((h.record.putVariant .unpublished
            (some (.entering .unpublished name p.content h.user t none))).putVariant .draft
          (some (.entering .draft name' p.content h.user t' none)))
        { result := some (.ofVariant h.id (.entering .draft name' p.content h.user t' none)) }
  | promote {h : Handle} {d : Variant} (hd : h.variant? .draft = some d)
      (hu : h.variant? .unpublished = none) (hp : h.variant? .published = none) :
      Effect ctx h .commit []
        ((h.record.putVariant .draft none).putVariant .unpublished
          (some (d.moved .unpublished none)))
        { result := some (.ofVariant h.id (d.moved .unpublished none)) }
  | fold {h : Handle} {d u : Variant} {t : Instant} (hd : h.variant? .draft = some d)
      (hu : h.variant? .unpublished = some u) :
      Effect ctx h .commit [.now t]
        ((h.record.putVariant .unpublished
          (some (u.withContent d.content h.user t))).putVariant .draft none)
        { result := some (.ofVariant h.id (u.withContent d.content h.user t)) }
  | dispose {h : Handle} {d u : Variant} (hd : h.variant? .draft = some d)
      (hu : h.variant? .unpublished = some u) :
      Effect ctx h .dispose [] (h.record.putVariant .draft none)
        { result := some (.ofVariant h.id u) }
  | update {h : Handle} {d : Variant} {content : Payload} {t : Instant}
      (hc : ctx.arguments.content = some content) (hd : h.variant? .draft = some d) :
      Effect ctx h .update [.now t]
        (h.record.putVariant .draft (some (d.withContent content h.user t)))
        { result := some (.ofVariant h.id (d.withContent content h.user t)) }
  | unlock {h : Handle} {d : Variant} (hd : h.variant? .draft = some d) :
      Effect ctx h .unlock [] (h.record.putVariant .draft (some d.released)) {}
  | publish {h : Handle} {u : Variant} {t t' : Instant} {name : String}
      (hu : h.variant? .unpublished = some u) (hp : h.variant? .published = none) :
      Effect ctx h .publish [.now t, .fresh .variant name, .now t']
        (h.record.putVariant .published
          (some (.entering .published name u.content h.user t (some t')))) {}
  | withdraw {h : Handle} {u p : Variant} (hu : h.variant? .unpublished = some u)
      (hp : h.variant? .published = some p) :
      Effect ctx h .depublish [] (h.record.putVariant .published none) {}
  | demote {h : Handle} {p : Variant} (hu : h.variant? .unpublished = none)
      (hp : h.variant? .published = some p) :
      Effect ctx h .depublish []
        ((h.record.putVariant .published none).putVariant .unpublished
          (some (p.moved .unpublished none))) {}
  | delete {h : Handle} : Effect ctx h .delete [] h.record { deletes := true }
  | file {h : Handle} {op : Operation} {kind : RequestKind} {id : String} {t : Instant}
      (hop : op.filed? = some kind)
      (hdate : kind.isScheduled = true → ctx.arguments.date.isSome = true) :
      Effect ctx h op [.fresh .request id, .now t]
        { h.record with
          requests := h.record.requests ++ [⟨id, kind, ctx.arguments.date, none, h.user, t⟩] }
        { request := some id }
  | copy {h : Handle} {v : Variant} {container name : String} {folder : Folder}
      {found : Option String} {id vid : String} {t : Instant}
      (hc : ctx.arguments.destination = some container) (hn : ctx.arguments.newName = some name)
      (hf : folder.embeds = true) (hfree : found = none ∨ found = some h.id)
      (hv : (h.variant? .unpublished).or (h.variant? .published) = some v) :
      Effect ctx h .copy
        [.folder ctx.category container (some folder), .find ⟨container, name⟩ found,
          .fresh .handle id, .now t, .fresh .variant vid]
        h.record
        { created := [id]
          staged := [.put (.single id (some ⟨container, name⟩)
            (.entering .unpublished vid v.content h.user t none)) none] }
  | move {h : Handle} {container name : String} {folder : Folder} {found : Option String}
      (hc : ctx.arguments.destination = some container) (hn : ctx.arguments.newName = some name)
      (hf : folder.embeds = true) (hfree : found = none ∨ found = some h.id) :
      Effect ctx h .move
        [.folder ctx.category container (some folder), .find ⟨container, name⟩ found]
        { h.record with location := some ⟨container, name⟩ } {}
  | rename {h : Handle} {location : Location} {name : String} {found : Option String}
      (hl : h.record.location = some location) (hn : ctx.arguments.newName = some name)
      (hfree : found = none ∨ found = some h.id) :
      Effect ctx h .rename [.find ⟨location.container, name⟩ found]
        { h.record with location := some ⟨location.container, name⟩ } {}
  | schedule {h : Handle} {id : String} {q : Request} {kind : RequestKind}
      (hid : ctx.arguments.request = some id) (hq : h.record.request? id = some q)
      (hdate : q.isDeferred ctx.arguments.now = true)
      (hkind : Task.scheduledKind? q.kind = some kind) :
      Effect ctx h .acceptRequest []
        (h.record.changeRequest q.id fun q => { q with kind := kind }) {}
  | accept {h : Handle} {id : String} {q : Request} {op : Operation} {path : List Taken}
      {r : Record} {t : Transaction}
      (hid : ctx.arguments.request = some id) (hq : h.record.request? id = some q)
      (hnow : q.isDeferred ctx.arguments.now = false ∨ Task.scheduledKind? q.kind = none)
      (hop : Operation.resolving? q.kind = some op)
      (hallows : (h.withRecord (h.record.dropRequest q.id)).allows op = true)
      (hrest : Effect ctx (h.withRecord (h.record.dropRequest q.id)) op path r t) :
      Effect ctx h .acceptRequest path r t
  | reject {h : Handle} {id : String} {q : Request}
      (hid : ctx.arguments.request = some id) (hq : h.record.request? id = some q) :
      Effect ctx h .rejectRequest []
        (h.record.changeRequest q.id fun q =>
          { q with kind := .rejected, reason := ctx.arguments.reason }) {}
  | cancel {h : Handle} {id : String} {q : Request}
      (hid : ctx.arguments.request = some id) (hq : h.record.request? id = some q) :
      Effect ctx h .cancelRequest [] (h.record.dropRequest q.id) {}
  | runScheduled {h : Handle} {q : Request} {op : Operation} {path : List Taken} {r : Record}
      {t : Transaction} (hq : h.record.pending? = some q) (hdue : q.isDue ctx.arguments.now = true)
      (hop : Operation.resolving? q.kind = some op)
      (hallows : (h.withRecord (h.record.dropRequest q.id)).allows op = true)
      (hrest : Effect ctx (h.withRecord (h.record.dropRequest q.id)) op path r t) :
      Effect ctx h .runScheduled path r t
  | version {h : Handle} {u : Variant} {now t : Instant} (hu : h.variant? .unpublished = some u)
      (ht : Task.snapshotTime h.record.history now = some t) :
      Effect ctx h .version [.now now]
        { h.record with
          history := h.record.history ++
            [⟨t, Snapshot.nextName h.record.history, .empty, u.content⟩] }
        { result := some
            (.ofSnapshot h.id ⟨t, Snapshot.nextName h.record.history, .empty, u.content⟩) }
  | restore {h : Handle} {u : Variant} {s : Snapshot} {t now : Instant}
      (ht : ctx.arguments.timestamp = some t) (hs : Snapshot.inForce? h.record.history t = some s)
      (hu : h.variant? .unpublished = some u) :
      Effect ctx h .restoreVersion [.now now]
        (h.record.putVariant .unpublished (some (u.withContent s.content h.user now)))
        { result := some (.ofVariant h.id (u.withContent s.content h.user now)) }
  | restoreOwn {h : Handle} {v : Variant} {s : Snapshot} {t now : Instant} {target : Reference}
      (ht : ctx.arguments.timestamp = some t) (hs : Snapshot.inForce? h.record.history t = some s)
      (htarget : ctx.arguments.target = some target) (hown : target.handle = h.id)
      (hv : h.variant? target.stage = some v) :
      Effect ctx h .restoreVersionTo [.now now]
        (h.record.putVariant target.stage (some (v.withContent s.content h.user now)))
        { result := some (.ofVariant h.id (v.withContent s.content h.user now)) }
  | restoreOther {h : Handle} {v : Variant} {s : Snapshot} {t now : Instant} {target : Reference}
      {stored : Stored}
      (ht : ctx.arguments.timestamp = some t) (hs : Snapshot.inForce? h.record.history t = some s)
      (htarget : ctx.arguments.target = some target) (hother : target.handle ≠ h.id)
      (hv : stored.record.variants.get target.stage = some v) :
      Effect ctx h .restoreVersionTo [.load target.handle (some stored), .now now] h.record
        { result := some (.ofVariant target.handle (v.withContent s.content h.user now))
          staged := [.put (stored.record.putVariant target.stage
            (some (v.withContent s.content h.user now))) (some stored.revision)] }
  | listVersions {h : Handle} : Effect ctx h .listVersions [] h.record {}
  | retrieveVersion {h : Handle} {s : Snapshot} {t : Instant}
      (ht : ctx.arguments.timestamp = some t) (hs : Snapshot.inForce? h.record.history t = some s) :
      Effect ctx h .retrieveVersion [] h.record { result := some (.ofSnapshot h.id s) }

end Editorial
