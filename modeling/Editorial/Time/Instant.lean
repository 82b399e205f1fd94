import Editorial.Time.Calendar

/-!
# Instants

An instant is a second counted from 1970-01-01T00:00:00Z and a nanosecond
within it. A nanosecond count of 10⁹ or more stands within a leap second, the
one inserted after the last second of a minute; so instants are ordered by
their seconds and then by their nanoseconds, leap seconds included.

Instants reach from the first second of the year -262143 to the last of the
year 262142. The calendar therefore has an end, and the step to the next
microsecond may find none.

## Main results

* `lt_of_nextMicrosecond?` — the next microsecond is later.
* `nextMicrosecond?_eq_none_iff` — there is none only at the end.
-/

namespace Editorial

/-- A point in time, in UTC. -/
structure Instant where
  /-- Seconds from 1970-01-01T00:00:00Z. -/
  second : Int
  /-- Nanoseconds within the second; from 10⁹ on within the leap second after it. -/
  nanosecond : Nat
  afterFirst : -8334601228800 ≤ second
  beforeLast : second ≤ 8210266876799
  withinSecond : nanosecond < 1000000000 ∨ (nanosecond < 2000000000 ∧ second % 60 = 59)
deriving DecidableEq

namespace Instant

/-- The first second of the calendar. -/
def firstSecond : Int := -8334601228800

/-- The last second of the calendar. -/
def lastSecond : Int := 8210266876799

/-- The first year an instant may lie in. -/
def firstYear : Int := -262143

/-- The last year an instant may lie in. -/
def lastYear : Int := 262142

example : firstSecond = 86400 * (Date.mk firstYear 1 1).dayNumber := by decide
example : lastSecond = 86400 * (Date.mk lastYear 12 31).dayNumber + 86399 := by decide

/-- The instant with these counts, if the calendar has it. -/
def ofCounts? (second : Int) (nanosecond : Nat) : Option Instant :=
  if h : (-8334601228800 ≤ second ∧ second ≤ 8210266876799) ∧
      (nanosecond < 1000000000 ∨ (nanosecond < 2000000000 ∧ second % 60 = 59)) then
    some ⟨second, nanosecond, h.1.1, h.1.2, h.2⟩
  else none

/-- 1970-01-01T00:00:00Z. -/
def epoch : Instant := ⟨0, 0, by decide, by decide, by decide⟩

instance : Inhabited Instant := ⟨epoch⟩

@[ext] theorem ext {a b : Instant} (hs : a.second = b.second)
    (hn : a.nanosecond = b.nanosecond) : a = b := by
  cases a; cases b; cases hs; cases hn; rfl

theorem ofCounts?_counts (t : Instant) : ofCounts? t.second t.nanosecond = some t :=
  dif_pos ⟨⟨t.afterFirst, t.beforeLast⟩, t.withinSecond⟩

/-! ## Order -/

instance : LT Instant :=
  ⟨fun a b => a.second < b.second ∨ (a.second = b.second ∧ a.nanosecond < b.nanosecond)⟩

instance : LE Instant :=
  ⟨fun a b => a.second < b.second ∨ (a.second = b.second ∧ a.nanosecond ≤ b.nanosecond)⟩

theorem lt_def {a b : Instant} :
    a < b ↔ a.second < b.second ∨ (a.second = b.second ∧ a.nanosecond < b.nanosecond) :=
  Iff.rfl

theorem le_def {a b : Instant} :
    a ≤ b ↔ a.second < b.second ∨ (a.second = b.second ∧ a.nanosecond ≤ b.nanosecond) :=
  Iff.rfl

instance (a b : Instant) : Decidable (a < b) := decidable_of_iff' _ lt_def
instance (a b : Instant) : Decidable (a ≤ b) := decidable_of_iff' _ le_def

theorem not_lt {a b : Instant} : ¬ a < b ↔ b ≤ a := by
  rw [lt_def, le_def]; omega

theorem not_le {a b : Instant} : ¬ a ≤ b ↔ b < a := by
  rw [lt_def, le_def]; omega

theorem lt_trans {a b c : Instant} (hab : a < b) (hbc : b < c) : a < c := by
  rw [lt_def] at *; omega

theorem lt_irrefl (a : Instant) : ¬ a < a := by
  rw [lt_def]; omega

theorem le_refl (a : Instant) : a ≤ a := by
  rw [le_def]; omega

theorem le_trans {a b c : Instant} (hab : a ≤ b) (hbc : b ≤ c) : a ≤ c := by
  rw [le_def] at *; omega

theorem le_of_lt {a b : Instant} (h : a < b) : a ≤ b := by
  rw [lt_def] at h; rw [le_def]; omega

theorem le_antisymm {a b : Instant} (hab : a ≤ b) (hba : b ≤ a) : a = b := by
  rw [le_def] at *
  exact Instant.ext (by omega) (by omega)

/-! ## The next microsecond -/

/-- The instant a microsecond later, if the calendar has it. Within a leap
second the count goes on to its end and from there to the next second. -/
def nextMicrosecond? (t : Instant) : Option Instant :=
  if t.nanosecond + 1000 < 1000000000 then
    ofCounts? t.second (t.nanosecond + 1000)
  else if t.nanosecond < 1000000000 then
    ofCounts? (t.second + 1) (t.nanosecond + 1000 - 1000000000)
  else if t.nanosecond + 1000 < 2000000000 then
    ofCounts? t.second (t.nanosecond + 1000)
  else
    ofCounts? (t.second + 1) (t.nanosecond + 1000 - 2000000000)

theorem counts_of_ofCounts? {second : Int} {nanosecond : Nat} {t : Instant}
    (h : ofCounts? second nanosecond = some t) :
    t.second = second ∧ t.nanosecond = nanosecond := by
  unfold ofCounts? at h
  split at h
  · cases h; exact ⟨rfl, rfl⟩
  · cases h

theorem lt_of_nextMicrosecond? {t u : Instant} (h : t.nextMicrosecond? = some u) : t < u := by
  unfold nextMicrosecond? at h
  rw [lt_def]
  repeat' split at h
  all_goals have := counts_of_ofCounts? h; omega

/-- There is no later microsecond only within the last one of the calendar. -/
theorem nextMicrosecond?_eq_none_iff (t : Instant) :
    t.nextMicrosecond? = none ↔
      t.second = 8210266876799 ∧
        ((999999000 ≤ t.nanosecond ∧ t.nanosecond < 1000000000) ∨
          1999999000 ≤ t.nanosecond) := by
  have h₁ := t.afterFirst
  have h₂ := t.beforeLast
  have h₃ := t.withinSecond
  unfold nextMicrosecond? ofCounts?
  repeat' split
  all_goals simp
  all_goals omega

end Instant

end Editorial
