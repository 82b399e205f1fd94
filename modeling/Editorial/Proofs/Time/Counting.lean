import Editorial.Time.Instant
import Mathlib.Tactic.Common

/-!
# Counting microseconds

An instant and a number of microseconds are compared on a line of nanoseconds. Seconds have
all the same length on it, so a leap second lies where the second after it does. Instants
themselves are compared by their seconds first, and that puts a leap second before the second
after it. `IsBy` is the order of instants against a point of the line, and it agrees with both
of them: outside a leap second it is the order of instants (`isBy_count_iff`), and stepping on
by a microsecond steps on by a thousand on the line (`IsBy.next`), from a leap second too.

A clock may be read in a leap second, and so may a bound lie in one. If instants were added up
and compared there, a microsecond after the last ordinary one would already lie past a bound
that is a microsecond into the leap second; on the line it does not.

## Main results

* `IsBy.next` — a microsecond later is later by a microsecond at most.
* `nextMicrosecond?_eq_none_iff_lt` — there is none only if that is past the end.
-/

namespace Editorial.Instant

variable {t u bound : Instant} {m n : Int} {k : Nat}

/-! ## The line of nanoseconds -/

/-- Nanoseconds from 1970. A leap second counts as the second after it. -/
def count (t : Instant) : Int := 1000000000 * t.second + t.nanosecond

/-- The instant is no later than `n` nanoseconds from 1970. -/
def IsBy (t : Instant) (n : Int) : Prop :=
  t.second < n / 1000000000 ∨ (t.second = n / 1000000000 ∧ (t.nanosecond : Int) ≤ n % 1000000000)

/-- The instant lies outside leap seconds. -/
def IsOrdinary (t : Instant) : Prop := t.nanosecond < 1000000000

instance (t : Instant) : Decidable t.IsOrdinary := inferInstanceAs (Decidable (_ < _))

/-- The last ordinary instant of the calendar. -/
def final : Instant := ⟨8210266876799, 999999999, by decide, by decide, by decide⟩

theorem count_final : final.count = 8210266876799999999999 := rfl

theorem isBy_of_le (h : t ≤ bound) : t.IsBy bound.count := by
  have hbound := bound.withinSecond
  rw [le_def] at h
  unfold IsBy count
  omega

/-- Against an ordinary instant the order is that of instants. -/
theorem isBy_count_iff (hbound : bound.IsOrdinary) : t.IsBy bound.count ↔ t ≤ bound := by
  refine ⟨fun h => ?_, isBy_of_le⟩
  unfold IsOrdinary at hbound
  unfold IsBy count at h
  rw [le_def]
  omega

theorem IsBy.mono (h : t.IsBy m) (hle : m ≤ n) : t.IsBy n := by
  unfold IsBy at h ⊢
  omega

/-! ## Steps of a microsecond -/

/-- What the next microsecond is: in the same second, or the beginning of the next one. -/
theorem nextMicrosecond?_cases (h : t.nextMicrosecond? = some u) :
    (u.second = t.second ∧ u.nanosecond = t.nanosecond + 1000 ∧
        (t.IsOrdinary → u.IsOrdinary)) ∨
      (u.second = t.second + 1 ∧ u.nanosecond < 1000 ∧
        (t.IsOrdinary → u.nanosecond + 1000000000 = t.nanosecond + 1000)) := by
  have hwithin := t.withinSecond
  unfold nextMicrosecond? at h
  unfold IsOrdinary
  repeat' split at h
  all_goals
    obtain ⟨hsecond, hnanosecond⟩ := counts_of_ofCounts? h
    omega

/-- A microsecond later is later by a microsecond at most. -/
theorem IsBy.next (h : t.IsBy n) (hu : t.nextMicrosecond? = some u) : u.IsBy (n + 1000) := by
  unfold IsBy at h ⊢
  rcases nextMicrosecond?_cases hu with ⟨hsecond, hnanosecond, -⟩ | ⟨hsecond, hnanosecond, hcarry⟩
  · omega
  · -- Only within the same second does it count where the step began, and then in no leap second.
    unfold IsOrdinary at hcarry
    omega

/-- As long as it does not lead past the end, there is a step. -/
theorem IsBy.exists_next (h : t.IsBy n) (hend : n + 1000 ≤ final.count) :
    ∃ u, t.nextMicrosecond? = some u := by
  cases hnext : t.nextMicrosecond? with
  | some u => exact ⟨u, rfl⟩
  | none =>
      have hlast := (nextMicrosecond?_eq_none_iff t).1 hnext
      rw [count_final] at hend
      unfold IsBy at h
      omega

/-- From an ordinary instant there is no step only if it leads past the end. -/
theorem nextMicrosecond?_eq_none_iff_lt (ht : t.IsOrdinary) :
    t.nextMicrosecond? = none ↔ final.count < t.count + 1000 := by
  have hbefore := t.beforeLast
  rw [nextMicrosecond?_eq_none_iff, count_final]
  unfold IsOrdinary at ht
  unfold count
  omega

/-- The instant so many microseconds later, if the calendar has it. -/
def plusMicroseconds? (t : Instant) : Nat → Option Instant
  | 0 => some t
  | k + 1 => (plusMicroseconds? t k).bind nextMicrosecond?

/-- From an ordinary instant they add up on the line. -/
theorem count_of_plusMicroseconds? (ht : t.IsOrdinary) (h : t.plusMicroseconds? k = some u) :
    u.IsOrdinary ∧ u.count = t.count + 1000 * k := by
  induction k generalizing u with
  | zero =>
      cases h
      exact ⟨ht, by omega⟩
  | succ k ih =>
      obtain ⟨v, hv, hu⟩ := Option.bind_eq_some_iff.1 h
      obtain ⟨hordinary, hcount⟩ := ih hv
      unfold count at hcount ⊢
      rcases nextMicrosecond?_cases hu with ⟨hsecond, hnanosecond, hkeeps⟩ |
        ⟨hsecond, hnanosecond, hcarry⟩
      · exact ⟨hkeeps hordinary, by omega⟩
      · have hwhole := hcarry hordinary
        refine ⟨?_, by omega⟩
        unfold IsOrdinary
        omega

/-- A bound on the line is a bound by an instant. -/
theorem IsBy.le_plusMicroseconds? (h : t.IsBy (bound.count + 1000 * k)) (hbound : bound.IsOrdinary)
    (hu : bound.plusMicroseconds? k = some u) : t ≤ u := by
  obtain ⟨hordinary, hcount⟩ := count_of_plusMicroseconds? hbound hu
  rw [← hcount] at h
  exact (isBy_count_iff hordinary).1 h

end Editorial.Instant
