import Editorial.Proofs.Desk.Breaking
import Editorial.Proofs.Office.History
import Editorial.Proofs.Office.Quiet

/-!
# How far versions run ahead of the clock

Clients may read any times in any order, and what they commit may have been prepared long
before. All that can be said of the times of versions is said of every record at once,
stored or loaded: a snapshot is later than all that the clock ever said by a microsecond at
most for each snapshot before it. That is kept by every move. Where a client reads the clock
does not matter, since the bound is one for all readings; nor does it matter how old a loaded
record is, since the bound counts its own snapshots.

Beyond the end of the calendar the bound says nothing, and there a call to take a version
breaks off. It does not before, as long as the readings and the number of snapshots leave
room for one more.

The bound is a point on the line of nanoseconds, on which a leap second counts as the second
after it. That is the order of instants unless the bound itself lies in a leap second. In that
case no bound in the same leap second can be promised, as a microsecond after the last
ordinary instant before it lies in the second after it.

## Main results

* `Committing.leaves_isTimedBy` — what a job commits keeps to the bound.
* `timed_run` — all records do, in every run of an office.
* `version_times_bounded` — the times of versions, and when there is none left.
-/

namespace Editorial

/-! ## Commits -/

/-- What a job commits keeps to the bound, if what it loaded does and the clock was no later
whenever the job read it. -/
theorem Desk.Committing.leaves_isTimedBy {desk : Desk} {job : Job} {journal : List Taken}
    {changes : List Change} {n : Int} (hc : desk.Committing job journal changes)
    (hloads : ∀ step ∈ journal, step.Loads (Record.IsTimedBy n))
    (hreads : ∀ now, .now now ∈ journal → now.IsBy n) :
    ∀ change ∈ changes, change.Leaves (Record.IsTimedBy n) := by
  cases hc with
  | @call id user call opening lost last op arguments _ t hopens hlost hprepares hsettles =>
      have hlast : ∀ step ∈ last, step ∈ opening ++ (lost ++ last) := fun step hm =>
        List.mem_append_right _ (List.mem_append_right _ hm)
      cases hprepares with
      | @loaded stored path r _ _ hallows heffect hchanges =>
          have hpath : ∀ step ∈ path, step ∈ .load id (some stored) :: path := fun step hm =>
            List.mem_cons_of_mem _ hm
          have hloaded := hloads _ (hlast _ (List.mem_cons_self ..)) stored rfl
          have hr : r.IsTimedBy n := heffect.isTimedBy hloaded fun now hm =>
            hreads now (hlast _ (hpath _ hm))
          have hstages : t.Stages (Record.IsTimedBy n) :=
            heffect.stages hallows (Record.stageable_isTimedBy n) fun step hm =>
              hloads step (hlast _ (hpath _ hm))
          exact leaves_changes (fun _ => hr) hstages hchanges
  | create hnamed hsettles hmade =>
      intro change hm
      rw [List.mem_singleton.1 hm]
      exact (Record.stageable_isTimedBy n).single _ _ _

namespace Office

variable {desk : Desk} {o : Office} {n : Int} {bound : Instant}

/-! ## Readings of the clock -/

/-- No client was told a time later than `bound`. -/
def ReadsBy (o : Office) (bound : Instant) : Prop := ∀ now, o.Tells (.now now) → now ≤ bound

theorem ReadsBy.of_step {move : Move} (h : (o.step desk move).ReadsBy bound) :
    o.ReadsBy bound := fun now ht => h now (ht.step desk move)

/-- That is so if no move is made later. -/
theorem readsBy_run (desk : Desk) (s : System) {moves : List Move}
    (hmoves : ∀ client now name, .advance client now name ∈ moves → now ≤ bound) :
    ((opening s).run desk moves).ReadsBy bound := by
  refine run_induction_of_mem (I := fun o => o.ReadsBy bound) (fun o move hm h now ht => ?_) ?_
  · rcases step_cases desk o move with ⟨job, rfl, -⟩ | hstep |
      ⟨i, c, query, next, now', name, rfl, hc, -, -, hstep⟩
    · exact h now (tells_enter ht)
    · rw [hstep] at ht
      exact h now ht
    · rw [hstep] at ht
      rcases tells_take hc ht with ht | he
      · exact h now ht
      · cases query with
        | now =>
            cases he
            exact hmoves i now' name hm
        | fresh kind | load id | find location | folder category container | commit changes
        | pause milliseconds | log notice => cases he
  · rintro now ⟨c, hm, -⟩
    cases hm

/-! ## Records -/

/-- Every record that is stored or was loaded keeps to the bound. -/
structure Timed (n : Int) (o : Office) : Prop where
  stored : ∀ id stored, o.system.store.get? id = some stored → stored.record.IsTimedBy n
  loaded : ∀ t, o.Tells t → t.Loads (Record.IsTimedBy n)

theorem timed_opening {s : System} (hs : s.store = .empty) : (opening s).Timed n := by
  refine ⟨fun id stored hget => ?_, ?_⟩
  · change s.store.get? id = some stored at hget
    rw [hs, Keyed.get?_empty] at hget
    cases hget
  · rintro t ⟨c, hm, -⟩
    cases hm

/-- A move keeps the bound. -/
theorem Timed.step (h : o.Timed n) (hcurrent : o.Current desk) (htable : desk.table = .standard)
    (hreads : ∀ now, o.Tells (.now now) → now.IsBy n) (move : Move) :
    (o.step desk move).Timed n := by
  rcases step_cases desk o move with ⟨job, rfl, -⟩ | hstep |
    ⟨i, c, query, next, now, name, -, hc, hp, -, hstep⟩
  · exact ⟨h.stored, fun t ht => h.loaded t (tells_enter ht)⟩
  · rw [hstep]
    exact h
  · rw [hstep]
    have hmem : c ∈ o.clients := List.mem_of_getElem? hc
    have hcommits : query.Commits (Record.IsTimedBy n) := by
      cases query with
      | commit changes =>
          have hcommitting := hcurrent.committing htable hmem hp
          exact hcommitting.leaves_isTimedBy (fun step hm => h.loaded step ⟨c, hmem, hm⟩)
            fun now hm => hreads now ⟨c, hmem, hm⟩
      | now | fresh kind | load id | find location | folder category container
      | pause milliseconds | log notice => trivial
    refine ⟨stored_answer h.stored hcommits now name, fun t ht => ?_⟩
    rcases tells_take hc ht with ht | rfl
    · exact h.loaded t ht
    · exact loads_answer h.stored (fun _ => Record.IsTimedBy.reread) query now name

/-- All records keep to a bound that the clock keeps to, in every run of an office that
begins with an empty store. -/
theorem timed_run (htable : desk.table = .standard) {s : System} (hs : s.store = .empty)
    {moves : List Move} (hreads : ((opening s).run desk moves).ReadsBy bound) :
    ((opening s).run desk moves).Timed bound.count := by
  have hrun : ((opening s).run desk moves).Current desk ∧
      (((opening s).run desk moves).ReadsBy bound →
        ((opening s).run desk moves).Timed bound.count) := by
    refine run_induction (I := fun o => o.Current desk ∧ (o.ReadsBy bound → o.Timed bound.count))
      (fun o move ⟨hcurrent, htimed⟩ => ⟨hcurrent.step htable move, fun hreads => ?_⟩)
      ⟨current_run htable (Store.filed_of_empty hs) [], fun _ => timed_opening hs⟩ moves
    -- What the clock said before the move it has said after it, too.
    have hbefore := hreads.of_step
    exact (htimed hbefore).step hcurrent htable
      (fun now ht => Instant.isBy_of_le (hbefore now ht)) move
  exact hrun.2 hreads

/-! ## Calls that break off -/

/-- A call to take a version that broke off loaded the document when it had more snapshots
than the bound leaves room for. -/
theorem exists_history_of_broken (htable : desk.table = .standard) {s : System}
    (hs : s.store = .empty) {moves : List Move}
    (hreads : ((opening s).run desk moves).ReadsBy bound) {i : Nat} {id user : String}
    (hjob : ((opening s).run desk moves).clients[i]?.map Client.job =
      some (.call id user .version))
    (hended : ((opening s).run desk moves).ended? i = some none) :
    ∃ before after history, moves = before ++ after ∧
      ((opening s).run desk before).system.store.history? id = some history ∧
      Instant.final.count < bound.count + 1000 * history.length := by
  obtain ⟨c, hc, hp⟩ := of_ended? hended
  rw [hc] at hjob
  have hmem : c ∈ ((opening s).run desk moves).clients := List.mem_of_getElem? hc
  have htraces := (current_run htable (Store.filed_of_empty hs) moves).traces c hmem
  have hleads := htraces.reaches hp
  rw [Option.some.inj hjob] at hleads
  obtain ⟨-, head, loaded, now, hjournal, hout⟩ :=
    Desk.breaksOff_of_leads_process htable rfl hleads
  obtain ⟨before, now', name, between, c₀, next, rfl, -, -, -, -, hanswer⟩ :=
    exists_moment hc hjournal
  have hloaded : Taken.mk (.load id) (((opening s).run desk before).answer (.load id) now' name).1 =
      .load id (some loaded) := congrArg (Taken.mk (.load id)) hanswer.symm
  obtain ⟨stored, hget, hhanded⟩ := get?_of_answer hloaded
  have hloads : Taken.Loads (Record.IsTimedBy bound.count) (.load id (some loaded)) := by
    refine (timed_run htable hs hreads).loaded _ ⟨c, hmem, ?_⟩
    rw [hjournal]
    exact List.mem_append_right _ (List.mem_cons_self ..)
  have hlt := (hloads loaded rfl).lt_of_outOfTime hout
  refine ⟨before, _, stored.record.history, rfl, congrArg (Option.map _) hget, ?_⟩
  obtain ⟨-, rfl⟩ := Backend.handOut?_eq_ok_iff.1 hhanded
  rw [Backend.history_handsOut, List.length_map] at hlt
  exact hlt

end Office

/-! ## The times of versions -/

/-- What is promised of the times of versions. -/
structure VersionTimes (desk : Desk) (s : System) : Prop where
  /-- Entry number `i` of a history, counted from 0, is later than all readings of the clock
  by `i` microseconds at most. -/
  bounded : ∀ (moves : List Move) (bound : Instant),
    let o := (Office.opening s).run desk moves
    o.ReadsBy bound → ∀ (id : String) (history : List Snapshot),
    o.system.store.history? id = some history →
    ∀ (i : Nat) (sn : Snapshot), history[i]? = some sn →
    sn.timestamp.IsBy (bound.count + 1000 * i)
  /-- Outside leap seconds that is a bound by the instant so many microseconds later, and if
  the calendar has none it is no bound. -/
  within : ∀ (moves : List Move) (bound : Instant), bound.IsOrdinary →
    let o := (Office.opening s).run desk moves
    o.ReadsBy bound → ∀ (id : String) (history : List Snapshot),
    o.system.store.history? id = some history →
    ∀ (i : Nat) (sn : Snapshot), history[i]? = some sn →
    ∀ latest, bound.plusMicroseconds? i = some latest → sn.timestamp ≤ latest
  /-- No call to take a version of a document breaks off if there was always room for one
  more entry in its history. -/
  enough : ∀ (moves : List Move) (bound : Instant),
    let o := (Office.opening s).run desk moves
    o.ReadsBy bound → ∀ (id : String),
    (∀ before after history, moves = before ++ after →
      ((Office.opening s).run desk before).system.store.history? id = some history →
      bound.count + 1000 * history.length ≤ Instant.final.count) →
    ∀ (i : Nat) (user : String), o.clients[i]?.map Client.job = some (.call id user .version) →
    o.ended? i ≠ some none
  /-- Whatever the history, taking a version breaks off exactly if it is allowed and the
  clock is not past the last entry when there is no microsecond after that. -/
  overflows : ∀ (ctx : Context) (h : Handle) (path : List Taken),
    ((desk.table.fire ctx .version).on ⟨h, {}⟩).Leads path none ↔
      h.allows .version = true ∧
        ∃ now, path = [.now now] ∧ Snapshot.OutOfTime h.record.history now
  /-- There is no microsecond after an instant exactly if it would be past the end. -/
  maximum : ∀ t : Instant, t.IsOrdinary →
    (t.nextMicrosecond? = none ↔ Instant.final.count < t.count + 1000)
  /-- Otherwise the new entry is later than the last one. -/
  later : ∀ (ctx : Context) (h : Handle), h.allows .version = true → ∀ now,
    ¬ Snapshot.OutOfTime h.record.history now →
    ∃ sn : Snapshot,
      ((desk.table.fire ctx .version).on ⟨h, {}⟩).Leads [.now now]
        (some (.ok (), ⟨h.withRecord { h.record with history := h.record.history ++ [sn] },
          { result := some (.ofSnapshot h.id sn) }⟩)) ∧
      ∀ last, h.record.history.getLast? = some last → last.timestamp < sn.timestamp

/-- In every run of an office that begins with an empty store, whatever the clock, the
backend and the settings: versions run ahead of the clock by a microsecond at most for each
version before them, and taking one breaks off only at the end of the calendar. -/
theorem version_times_bounded (desk : Desk) (htable : desk.table = .standard) (s : System)
    (hs : s.store = .empty) : VersionTimes desk s := by
  have hbounded : ∀ (moves : List Move) (bound : Instant),
      ((Office.opening s).run desk moves).ReadsBy bound → ∀ (id : String)
      (history : List Snapshot),
      ((Office.opening s).run desk moves).system.store.history? id = some history →
      Snapshot.TimedBy bound.count history := by
    intro moves bound hreads id history hhistory
    obtain ⟨stored, hget, rfl⟩ := Option.map_eq_some_iff.1 hhistory
    exact (Office.timed_run htable hs hreads).stored id stored hget
  constructor
  case bounded => exact hbounded
  case within =>
    intro moves bound hordinary o hreads id history hhistory i sn hsn latest hlatest
    have hby := hbounded moves bound hreads id history hhistory i sn hsn
    exact hby.le_plusMicroseconds? hordinary hlatest
  case enough =>
    intro moves bound o hreads id hroom i user hjob hended
    obtain ⟨before, after, history, hmoves, hhistory, hlt⟩ :=
      Office.exists_history_of_broken htable hs hreads hjob hended
    have hle := hroom before after history hmoves hhistory
    omega
  case overflows =>
    intro ctx h path
    rw [htable]
    exact Table.leads_fire_version_none_iff
  case maximum => exact fun t ht => Instant.nextMicrosecond?_eq_none_iff_lt ht
  case later =>
    intro ctx h hallows now htime
    rw [htable]
    exact Table.leads_fire_version_of_time hallows htime

/-- Two microseconds before the end the clock stands still. There are two versions then, and
the third one breaks off. -/
theorem version_times_bounded_end :
    let bound : Instant := ⟨8210266876799, 999998000, by decide, by decide, by decide⟩
    let latest : Instant := ⟨8210266876799, 999999000, by decide, by decide, by decide⟩
    let step (client : Nat) : Move := .advance client bound ""
    let moves : List Move :=
      [.enter (.create none .unpublished .null "ann"), .advance 0 bound "a",
        .advance 0 bound "v", step 0, step 0] ++
      (.enter (.call "a" "bob" .version) :: List.replicate 6 (step 1)) ++
      (.enter (.call "a" "cy" .version) :: List.replicate 6 (step 2)) ++
      (.enter (.call "a" "dan" .version) :: List.replicate 3 (step 3))
    let o := (Office.opening {}).run {} moves
    o.ReadsBy bound ∧
      (o.system.store.history? "a").map (List.map Snapshot.timestamp) = some [bound, latest] ∧
      bound.plusMicroseconds? 1 = some latest ∧ o.ended? 3 = some none ∧
      VersionTimes {} {} := by
  intro bound latest step moves o
  have hreads : o.ReadsBy bound := by
    refine Office.readsBy_run {} {} fun client now name hm => ?_
    have hnow : now = bound := by grind
    rw [hnow]
    exact Instant.le_refl bound
  have hrun : (o.system.store.history? "a").map (List.map Snapshot.timestamp) =
      some [bound, latest] ∧ bound.plusMicroseconds? 1 = some latest ∧ o.ended? 3 = some none := by
    decide +kernel
  exact ⟨hreads, hrun.1, hrun.2.1, hrun.2.2, version_times_bounded {} rfl {} rfl⟩

end Editorial
