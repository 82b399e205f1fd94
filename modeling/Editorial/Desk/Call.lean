import Editorial.Desk.Basic

/-!
# Calls

What users can ask of a desk. A call is about one document and made by one
user; apart from these it carries only what its operation needs. The instant at
which a call judges dates is the one at which it begins, however often it
starts over.

A document is made by `Desk.create`.
-/

namespace Editorial

/-- What a user can ask of a desk about a document. -/
inductive Call where
  | obtain
  | commit
  | dispose
  | update (content : Payload)
  | unlock
  /-- Publish, at some date if one is given. -/
  | publish (date : Option Instant)
  /-- Take offline, at some date if one is given. -/
  | depublish (date : Option Instant)
  | delete
  | copy (destination name : String)
  | move (destination name : String)
  | rename (name : String)
  | requestPublication (date : Option Instant)
  | requestDepublication (date : Option Instant)
  | requestDeletion
  | acceptRequest (request : String)
  | rejectRequest (request : String) (reason : Option String)
  | cancelRequest (request : String)
  /-- Carry out the scheduled request if it is due at `now`. -/
  | runScheduled (now : Instant)
  | version
  | restoreVersion (timestamp : Instant)
  | restoreVersionTo (timestamp : Instant) (target : Reference)
  | retrieveVersion (timestamp : Instant)
  | listVersions
  | hints
deriving DecidableEq

/-- What a call is answered with. -/
inductive Reply where
  | done
  | document (document : Document)
  | request (id : String)
  | versions (catalogue : List (Instant × Names))
  | hints (hints : Hints)
deriving DecidableEq

namespace Desk

/-- Fails if an argument has nothing but white space. -/
def requireText (what value : String) : Except Failure Unit :=
  if Text.allBlank value then throw (.argument (.blank what)) else pure ()

/-! ## Forms of calls -/

/-- An operation of which the caller only learns that it was carried out. -/
def change (desk : Desk) (id user : String) (op : Operation)
    (give : Arguments → Arguments := fun arguments => arguments) : Flow Reply := do
  let _ ← desk.execute id user op (give { now := ← Process.now })
  return .done

/-- An operation that hands back a document. -/
def fetch (desk : Desk) (id user : String) (op : Operation)
    (give : Arguments → Arguments := fun arguments => arguments) : Flow Reply := do
  match (← desk.execute id user op (give { now := ← Process.now })).result with
  | none => throw (.state (.noDocument op id))
  | some d => return .document d

/-- An operation that files a request. -/
def file (desk : Desk) (id user : String) (op : Operation)
    (give : Arguments → Arguments := fun arguments => arguments) : Flow Reply := do
  match (← desk.execute id user op (give { now := ← Process.now })).request with
  | none => throw (.state (.noRequestFiled op id))
  | some request => return .request request

/-- An operation at some date: `now` if the date has come, and else `later`. -/
def changeAt (desk : Desk) (id user : String) (now later : Operation) (date : Instant) :
    Flow Reply := do
  let begun ← Process.now
  if date ≤ begun then desk.change id user now
  else
    let _ ← desk.execute id user later { date := some date, now := begun }
    return .done

/-! ## Answering -/

/-- Answers a call by `user` about the record `id`. -/
def answer (desk : Desk) (id user : String) : Call → Flow Reply
  | .obtain => desk.fetch id user .obtain
  | .commit => desk.fetch id user .commit
  | .dispose => desk.fetch id user .dispose
  | .update content => desk.fetch id user .update fun a => { a with content := some content }
  | .unlock => desk.change id user .unlock
  | .publish none => desk.change id user .publish
  | .publish (some date) => desk.changeAt id user .publish .schedulePublish date
  | .depublish none => desk.change id user .depublish
  | .depublish (some date) => desk.changeAt id user .depublish .scheduleDepublish date
  | .delete => desk.change id user .delete
  | .copy container name => do
      requireText "destination" container
      requireText "name" name
      desk.change id user .copy fun a =>
        { a with destination := some container, newName := some name }
  | .move container name => do
      requireText "destination" container
      requireText "name" name
      desk.change id user .move fun a =>
        { a with destination := some container, newName := some name }
  | .rename name => do
      requireText "name" name
      desk.change id user .rename fun a => { a with newName := some name }
  | .requestPublication date =>
      desk.file id user .requestPublication fun a => { a with date := date }
  | .requestDepublication date =>
      desk.file id user .requestDepublication fun a => { a with date := date }
  | .requestDeletion => desk.file id user .requestDeletion
  | .acceptRequest request =>
      desk.change id user .acceptRequest fun a => { a with request := some request }
  | .rejectRequest request reason =>
      desk.change id user .rejectRequest fun a =>
        { a with request := some request, reason := reason }
  | .cancelRequest request =>
      desk.change id user .cancelRequest fun a => { a with request := some request }
  | .runScheduled now => desk.change id user .runScheduled fun a => { a with now := now }
  | .version => desk.fetch id user .version
  | .restoreVersion timestamp =>
      desk.fetch id user .restoreVersion fun a => { a with timestamp := some timestamp }
  | .restoreVersionTo timestamp target =>
      desk.fetch id user .restoreVersionTo fun a =>
        { a with timestamp := some timestamp, target := some target }
  | .retrieveVersion timestamp =>
      desk.fetch id user .retrieveVersion fun a => { a with timestamp := some timestamp }
  | .listVersions => do
      let w ← desk.read id user .listVersions { now := ← Process.now }
      return .versions (Snapshot.catalogue w.handle.record.history)
  | .hints => do
      return .hints (Hints.ofHandle (← load id user))

/-! ## Making documents -/

/-- Makes a document with a single variant, either unpublished or a draft that
`user` holds, and answers its id. -/
def create (location : Option Location) (stage : Stage) (content : Payload) (user : String) :
    Flow String := do
  if let some l := location then
    requireText "container" l.container
    requireText "name" l.name
  let id ← Process.fresh .handle
  let v ← Process.fresh .variant
  let made := Variant.make v stage content user (← Process.now)
  let made := if stage = .draft then { made with holder := some user } else made
  match ← Flow.commit [.put (.single id location made) none] with
  | .committed => return id
  | .conflict _ =>
      match location with
      | some l => throw (.state (.locationTaken l))
      | none => throw (.state (.handleExists id))

end Desk

end Editorial
