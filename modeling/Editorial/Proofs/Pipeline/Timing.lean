import Editorial.Proofs.Hints.Pending
import Editorial.Proofs.Pipeline.History
import Editorial.Proofs.Time.Counting

/-!
# The times of versions

A version is of the time that the clock says, unless the clock is not past the last version.
Then it is of the microsecond after that, and so a clock that stands still or runs back makes
the versions run ahead of it, by a microsecond for each of them. How far ahead is bounded by
the number of versions alone: what entry a version is says how many bumps there can have been
before it, wherever the clock was in between.

The bump is the only step of a pipeline that has no answer at the end of the calendar, and
nothing guards it. An operation breaks off there and nowhere else.

## Main results

* `Snapshot.TimedBy.lt_of_outOfTime` — there is time as long as the bound leaves some.
* `Effect.isTimedBy` — an operation keeps the bound.
* `Table.leads_fire_version_none_iff` — when taking a version breaks off.
* `Table.leads_fire_version_of_time` — what comes of it otherwise.
-/

namespace Editorial

/-! ## Histories -/

namespace Snapshot

/-- Every snapshot is later than `n` nanoseconds from 1970 by at most a microsecond for each
snapshot before it. -/
def TimedBy (n : Int) (history : List Snapshot) : Prop :=
  ∀ (i : Nat) (s : Snapshot), history[i]? = some s → s.timestamp.IsBy (n + 1000 * i)

/-- When the clock says `now`, there is no time for a further snapshot: the clock is not past
the last one, and the calendar ends within a microsecond of that. -/
def OutOfTime (history : List Snapshot) (now : Instant) : Prop :=
  ∃ last, history.getLast? = some last ∧ now ≤ last.timestamp ∧
    last.timestamp.nextMicrosecond? = none

variable {n : Int} {history : List Snapshot} {now : Instant}

theorem timedBy_nil (n : Int) : TimedBy n [] := by
  intro i s hs
  cases hs

/-- Only the times count. -/
theorem TimedBy.map (h : TimedBy n history) {f : Snapshot → Snapshot}
    (hf : ∀ s, (f s).timestamp = s.timestamp) : TimedBy n (history.map f) := by
  intro i s hs
  rw [List.getElem?_map] at hs
  obtain ⟨s', hs', rfl⟩ := Option.map_eq_some_iff.1 hs
  rw [hf]
  exact h i s' hs'

theorem TimedBy.concat (h : TimedBy n history) {added : Snapshot}
    (hadded : added.timestamp.IsBy (n + 1000 * history.length)) :
    TimedBy n (history ++ [added]) := by
  intro i s hs
  rcases getElem?_concat_cases hs with hs | ⟨rfl, rfl⟩
  · exact h i s hs
  · exact hadded

/-- The last of so many snapshots. -/
theorem TimedBy.getLast? (h : TimedBy n history) {last : Snapshot}
    (hlast : history.getLast? = some last) :
    last.timestamp.IsBy (n + 1000 * history.length - 1000) := by
  rw [List.getLast?_eq_getElem?] at hlast
  have hlt := (List.getElem?_eq_some_iff.1 hlast).1
  refine (h _ last hlast).mono ?_
  omega

/-- As long as another snapshot would still be in the calendar there is time for one. -/
theorem TimedBy.lt_of_outOfTime (h : TimedBy n history) (hout : OutOfTime history now) :
    Instant.final.count < n + 1000 * history.length := by
  obtain ⟨last, hlast, -, hnone⟩ := hout
  by_contra hle
  have hroom : n + 1000 * history.length - 1000 + 1000 ≤ Instant.final.count := by omega
  obtain ⟨u, hu⟩ := (h.getLast? hlast).exists_next hroom
  rw [hnone] at hu
  cases hu

/-- The time of a further snapshot. -/
theorem TimedBy.snapshotTime (h : TimedBy n history) (hnow : now.IsBy n) {t : Instant}
    (ht : Task.snapshotTime history now = some t) : t.IsBy (n + 1000 * history.length) := by
  have hclock : now.IsBy (n + 1000 * history.length) := hnow.mono (by omega)
  cases hlast : history.getLast? with
  | none =>
      simp only [Task.snapshotTime, hlast] at ht
      cases ht
      exact hclock
  | some last =>
      simp only [Task.snapshotTime, hlast] at ht
      by_cases hle : now ≤ last.timestamp
      · rw [if_pos hle] at ht
        exact ((h.getLast? hlast).next ht).mono (by omega)
      · rw [if_neg hle] at ht
        cases ht
        exact hclock

end Snapshot

/-! ## Records -/

/-- The history of the record is timed so. -/
def Record.IsTimedBy (n : Int) (r : Record) : Prop := Snapshot.TimedBy n r.history

/-- A new record has no history, and writing over a variant leaves the history. -/
theorem Record.stageable_isTimedBy (n : Int) : Stageable (Record.IsTimedBy n) :=
  ⟨fun _ _ _ => Snapshot.timedBy_nil n, fun _ _ _ _ h _ _ => h⟩

/-- Reading a record again leaves the times. -/
theorem Record.IsTimedBy.reread {n : Int} {r : Record} (h : r.IsTimedBy n) :
    r.reread.IsTimedBy n :=
  Snapshot.TimedBy.map h fun _ => rfl

/-! ## Operations -/

/-- An operation keeps the times of the history, if the clock is no later than the bound
whenever the operation reads it. -/
theorem Effect.isTimedBy {ctx : Context} {h : Handle} {op : Operation} {path : List Taken}
    {r : Record} {t : Transaction} {n : Int} (he : Effect ctx h op path r t)
    (hloaded : h.record.IsTimedBy n) (hreads : ∀ now, .now now ∈ path → now.IsBy n) :
    r.IsTimedBy n := by
  rcases he.history_cases with hkept | ⟨rfl, -⟩
  · unfold Record.IsTimedBy
    rw [hkept]
    exact hloaded
  · cases he with
    | file hop => cases hop
    | @version _ _ now t hu ht =>
        have hnow := hreads now (List.mem_singleton_self _)
        exact hloaded.concat (hloaded.snapshotTime hnow ht)

namespace Table

open Process

variable {ctx : Context} {h : Handle} {path : List Taken}

/-- Taking a version breaks off exactly if it is allowed and the clock finds the history out
of time. -/
theorem leads_fire_version_none_iff :
    ((standard.fire ctx .version).on ⟨h, {}⟩).Leads path none ↔
      h.allows .version = true ∧
        ∃ now, path = [.now now] ∧ Snapshot.OutOfTime h.record.history now := by
  rw [← Hints.allows_eq h rfl ctx.arguments.request]
  cases ha : (Hints.ofHandle h).allows .version ctx.arguments.request with
  | false =>
      rw [on_fire_denied ha, leads_done]
      simp only [reduceCtorEq, and_false, Bool.false_eq_true, false_and]
  | true =>
      have hg := (Hints.allows_eq h rfl _).symm.trans ha
      obtain ⟨u, hu⟩ := Handle.exists_unpublished_of_allows (by simp) hg
      unfold fire depthLimit
      rw [on_standard_single ha (rule_of_unpublished .takeVersion (by simp) hu), leads_map,
        Task.run, Task.on_runTakeVersion, hu]
      constructor
      · rintro ⟨result', hl, hresult⟩
        obtain ⟨now, rest, rfl, hrest⟩ := (leads_ask _ _ _ _).1 hl
        cases ht : Task.snapshotTime h.record.history now with
        | some t =>
            simp only [ht, leads_done] at hrest
            obtain ⟨-, rfl⟩ := hrest
            cases hresult
        | none =>
            simp only [ht, leads_broken] at hrest
            obtain ⟨rfl, -⟩ := hrest
            exact ⟨rfl, now, rfl, Task.snapshotTime_eq_none_iff.1 ht⟩
      · rintro ⟨-, now, rfl, hout⟩
        refine ⟨none, (leads_ask_cons _ _ _ _ _).2 ?_, rfl⟩
        simp only [Task.snapshotTime_eq_none_iff.2 hout, leads_broken, and_self]

/-- Otherwise it adds a snapshot that is later than the last one. -/
theorem leads_fire_version_of_time (hallows : h.allows .version = true) {now : Instant}
    (htime : ¬ Snapshot.OutOfTime h.record.history now) :
    ∃ s : Snapshot,
      ((standard.fire ctx .version).on ⟨h, {}⟩).Leads [.now now]
        (some (.ok (), ⟨h.withRecord { h.record with history := h.record.history ++ [s] },
          { result := some (.ofSnapshot h.id s) }⟩)) ∧
      ∀ last, h.record.history.getLast? = some last → last.timestamp < s.timestamp := by
  obtain ⟨u, hu⟩ := Handle.exists_unpublished_of_allows (by simp) hallows
  cases ht : Task.snapshotTime h.record.history now with
  | none => exact absurd (Task.snapshotTime_eq_none_iff.1 ht) htime
  | some t =>
      refine ⟨_, leads_fire_iff.2 ⟨?_, _, _, rfl, .version hu ht⟩, fun last hlast => ?_⟩
      · rw [Hints.allows_eq h rfl, hallows]
      · exact Task.lt_of_snapshotTime ht hlast

end Table

end Editorial
