import Editorial.Proofs.Office.Pending

/-!
# Dates are neither anticipated nor missed

A document that is to go online, or offline, at some date gets there in three ways: by a
call with the date, by a request with the date that an editor accepts, and by a run of the
scheduled request that either of them may leave behind. Whichever way it goes, before the
date nothing of it has happened, and from the date on nothing is left to wait for.

That the switch can be made when its date has come is not a matter of dates. It is no
longer asked whether it is allowed, so something has to have kept it possible since the
request was filed, and that is so in an office that began with an empty store.

A call that puts something off writes the document back all the same, with the request
added. In a table a double in it may be another one afterwards.

## Main results

* `dates_are_kept` — what comes of a date, in every run of an office.
* `postponed_publication_drifts` — a text in a table that does not wait for its date.
-/

namespace Editorial

/-- What comes of the date for the switch `sw` on the document `id`, stored as `stored` in the
system `s`, by calls of the user that run alone and can load the document. -/
structure ActsOnDate (desk : Desk) (s : System) (id user : String) (stored : Stored)
    (sw : Switch) (date : Instant) : Prop where
  /-- A call without a date makes the switch, where the hints allow it. -/
  switched : (Hints.ofHandle (s.backend.handTo stored user)).allows sw.operation none = true →
    ∀ readings, ∃ s' r, s.runAt readings (desk.process (.call id user (sw.call none))) =
        (some (.ok (.reply .done)), s') ∧ s.Replaces id stored r s' ∧
      sw.Makes readings 2 user (s.backend.handsOut stored).record r
  /-- Before the date a call with it files one request for that date. -/
  postponed : (Hints.ofHandle (s.backend.handTo stored user)).allows sw.operation none = true →
    ∀ readings, readings.clock 0 < date → ∃ s',
      s.runAt readings (desk.process (.call id user (sw.call (some date)))) =
        (some (.ok (.reply .done)), s') ∧
      s.Replaces id stored
        { (s.backend.handsOut stored).record with
          requests := stored.record.requests ++
            [⟨readings.names 2, sw.scheduled, some date, none, user, readings.clock 3⟩] } s'
  /-- A request for the date makes the switch if it is accepted when the date has come. -/
  accepted : ∀ q ∈ stored.record.requests, q.kind = sw.requested → q.scheduledAt = some date →
    ∀ readings, date ≤ readings.clock 0 → ∃ s' r,
      s.runAt readings (desk.process (.call id user (.acceptRequest q.id))) =
        (some (.ok (.reply .done)), s') ∧ s.Replaces id stored r s' ∧
      sw.Makes readings 2 user ((s.backend.handsOut stored).record.dropRequest q.id) r
  /-- Before the date it becomes a scheduled one, and nothing else of it changes. -/
  scheduled : ∀ q ∈ stored.record.requests, q.kind = sw.requested → q.scheduledAt = some date →
    ∀ readings, readings.clock 0 < date → ∃ s',
      s.runAt readings (desk.process (.call id user (.acceptRequest q.id))) =
        (some (.ok (.reply .done)), s') ∧
      s.Replaces id stored ((s.backend.handsOut stored).record.changeRequest q.id fun q =>
        { q with kind := sw.scheduled }) s'
  /-- A scheduled request for the date makes the switch at every time from the date on. -/
  ran : ∀ q ∈ stored.record.requests, q.kind = sw.scheduled → q.scheduledAt = some date →
    ∀ now, date ≤ now → ∀ readings, ∃ s' r,
      s.runAt readings (desk.process (.call id user (.runScheduled now))) =
        (some (.ok (.reply .done)), s') ∧ s.Replaces id stored r s' ∧
      sw.Makes readings 2 user ((s.backend.handsOut stored).record.dropRequest q.id) r
  /-- Before the date it is refused. -/
  early : ∀ q ∈ stored.record.requests, q.kind = sw.scheduled → q.scheduledAt = some date →
    ∀ now, now < date → ∀ readings, ∃ s',
      s.runAt readings (desk.process (.call id user (.runScheduled now))) =
        (some (.error (.state (.notDue q.kind q.id (some date)))), s') ∧ s.SameData s'

/-- The date for the switch is kept, neither anticipated nor missed. -/
structure KeepsDate (desk : Desk) (s : System) (id user : String) (stored : Stored) (sw : Switch)
    (date : Instant) : Prop where
  /-- A call with the date, once that has come, is the call without it. -/
  come : ∀ readings, date ≤ readings.clock 0 →
    s.runAt readings (desk.process (.call id user (sw.call (some date)))) =
      s.runAt readings.rest (desk.process (.call id user (sw.call none)))
  /-- What is done and what is refused, if the document can be loaded: in a table, if no
  content of it is nested deeper than `Payload.depthLimit` (`Backend.canRead_iff`). -/
  acts : s.backend.canRead stored.record = true → ActsOnDate desk s id user stored sw date
  /-- A request for the date is put off exactly as long as it would not be due. -/
  decides : ∀ q : Request, q.scheduledAt = some date → ∀ now,
    ({ q with kind := sw.scheduled } : Request).isDue now = !q.isDeferred now

/-- In every run of an office that begins with an empty store dates are kept: for every stored
document, every user, both switches and every date. -/
theorem dates_are_kept (desk : Desk) (htable : desk.table = .standard) (s : System)
    (hs : s.store = .empty) (moves : List Move) (id : String) (stored : Stored)
    (hstored : ((Office.opening s).run desk moves).system.store.get? id = some stored)
    (user : String) (sw : Switch) (date : Instant) :
    KeepsDate desk ((Office.opening s).run desk moves).system id user stored sw date := by
  have hoffice := Office.fit_run htable hs moves
  have hfit := hoffice.stored id stored hstored
  have hfiled := hoffice.filed
  have hspread := hoffice.spread
  refine ⟨fun readings hdate => sw.runAt_call_of_le hdate _, fun hreadable => ?_,
    fun q hdate now => Request.isDue_eq (sw.isScheduled_of_scheduled rfl) hdate⟩
  constructor
  case switched =>
    exact System.exists_replaces_switch sw htable hfiled hspread hstored hreadable hfit
  case postponed =>
    exact fun hallows readings =>
      System.exists_replaces_postponed sw htable hfiled hspread hstored hreadable hfit hallows
  case accepted =>
    exact fun q hq hkind hdate readings =>
      System.exists_replaces_accept sw htable hfiled hspread hstored hreadable hfit hq hkind hdate
        user
  case scheduled =>
    exact fun q hq hkind hdate readings =>
      System.exists_replaces_accept_early sw htable hfiled hspread hstored hreadable hfit hq hkind
        hdate user
  case ran =>
    exact fun q hq hkind hdate now hnow =>
      System.exists_replaces_run sw htable hfiled hspread hstored hreadable hfit hq hkind hdate hnow
        user
  case early =>
    exact fun q hq hkind hdate now hnow =>
      System.exists_unchanged_run_early sw htable hstored hreadable hfit hq hkind hdate hnow user

/-- A document for which an author has asked that it be published at some date. -/
theorem dates_are_kept_requested :
    let date : Instant := ⟨1, 0, by decide, by decide, by decide⟩
    let moves : List Move :=
      [.enter (.create none .unpublished .null "ann"), .advance 0 .epoch "a",
        .advance 0 .epoch "v", .advance 0 .epoch "", .advance 0 .epoch "",
        .enter (.call "a" "ann" (.requestPublication (some date))), .advance 1 .epoch "",
        .advance 1 .epoch "", .advance 1 .epoch "q", .advance 1 .epoch "", .advance 1 .epoch ""]
    let q : Request := ⟨"q", .publication, some date, none, "ann", .epoch⟩
    let v : Variant := .make "v" .unpublished .null "ann" .epoch
    let stored : Stored := ⟨{ Record.single "a" none v with requests := [q] }, 2⟩
    let o := (Office.opening {}).run {} moves
    o.system.store.get? "a" = some stored ∧
      KeepsDate {} o.system "a" "bob" stored .publish date := by
  intro date moves q v stored o
  have hstored : o.system.store.get? "a" = some stored := by decide +kernel
  exact ⟨hstored, dates_are_kept {} rfl {} rfl moves "a" stored hstored "bob" .publish date⟩

/-- In a table a call that is to publish a document later changes its text at once: what is
loaded afterwards is a neighbour of it. -/
theorem postponed_publication_drifts :
    let content (bits : UInt64) : Payload := .ofJson (.double ⟨bits⟩)
    let record := Record.single "a" none
      (.make "v" .unpublished (content 4259304194031319137) "ann" .epoch)
    let s : System := { backend := .stepwise, store := Keyed.ofList [("a", ⟨record, 1⟩)] }
    let readings : Readings := ⟨fun _ => .epoch, fun _ => "q"⟩
    let date : Instant := ⟨1, 0, by decide, by decide, by decide⟩
    let ran := s.runAt readings (Desk.process {} (.call "a" "bob" (.publish (some date))))
    let content? (s : System) : Option Payload :=
      (s.backend.loaded? s.store "a").bind fun stored =>
        (stored.record.variants.get .unpublished).map Variant.content
    readings.clock 0 < date ∧ content? s = some (content 4259304194031319138) ∧
      content? ran.2 = some (content 4259304194031319137) ∧
      content 4259304194031319138 ≠ content 4259304194031319137 := by
  decide +kernel

end Editorial
