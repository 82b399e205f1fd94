/-!
# The proleptic Gregorian calendar

Days are numbered from 1970-01-01, which is day 0, in both directions. The
arithmetic counts from the first of March of year 0, so that the day a leap
year adds is the last of its year: 719468 days before day 0.

A period of 400 years always has 146097 days. Its centuries have 36524 days,
except the last; their groups of four years have 1461, except the last of a
century; their years have 365, except the last of a group. Hence the three
`min`s in `Date.ofDayNumber`: the exceptional day belongs to the last part.

## Main results

* `dayNumber_ofDayNumber` — the number of the day with a number is that number.
* `isReal_ofDayNumber` — every day number names a real date.
-/

namespace Editorial

/-- A year, a month counted from 1 and a day counted from 1. -/
structure Date where
  year : Int
  month : Nat
  day : Nat
deriving DecidableEq, Repr

namespace Date

/-- Whether `year` has a 29th of February. -/
def isLeap (year : Int) : Bool :=
  year % 4 = 0 && (year % 100 ≠ 0 || year % 400 = 0)

/-- How many days `month` has in `year`. -/
def daysInMonth (year : Int) (month : Nat) : Nat :=
  if month = 2 then (if isLeap year then 29 else 28)
  else if month = 4 ∨ month = 6 ∨ month = 9 ∨ month = 11 then 30
  else 31

/-- The month exists and has such a day in that year. -/
def IsReal (date : Date) : Prop :=
  (1 ≤ date.month ∧ date.month ≤ 12) ∧
    (1 ≤ date.day ∧ date.day ≤ daysInMonth date.year date.month)

instance (date : Date) : Decidable date.IsReal :=
  inferInstanceAs (Decidable (_ ∧ _))

/-- Days from the first of March of year 0 to day 0. -/
def epochOffset : Int := 719468

/-- How many months after March `month` comes; January and February come last. -/
def monthsSinceMarch (month : Nat) : Nat := (month + 9) % 12

/-- Days from the first of March to the first of the month that comes
`months` later. -/
def daysSinceMarch (months : Nat) : Nat := (153 * months + 2) / 5

/-- The number of the day. -/
def dayNumber (date : Date) : Int :=
  let year := if date.month ≤ 2 then date.year - 1 else date.year
  365 * year + year / 4 - year / 100 + year / 400
    + daysSinceMarch (monthsSinceMarch date.month) + ((date.day : Int) - 1)
    - epochOffset

/-- The date of the day with number `n`. -/
def ofDayNumber (n : Int) : Date :=
  let count := n + epochOffset
  let period := count / 146097
  let inPeriod := (count % 146097).toNat
  let century := min (inPeriod / 36524) 3
  let inCentury := inPeriod - 36524 * century
  let group := inCentury / 1461
  let inGroup := inCentury - 1461 * group
  let inGroupYear := min (inGroup / 365) 3
  let inYear := inGroup - 365 * inGroupYear
  let months := (5 * inYear + 2) / 153
  let day := inYear - daysSinceMarch months + 1
  let year := 400 * period + (100 * century + 4 * group + inGroupYear : Nat)
  if months < 10 then ⟨year, months + 3, day⟩ else ⟨year + 1, months - 9, day⟩

theorem dayNumber_ofDayNumber (n : Int) : (ofDayNumber n).dayNumber = n := by
  unfold ofDayNumber
  simp only
  generalize hcount : n + epochOffset = count
  have hpos := Int.emod_nonneg count (show (146097 : Int) ≠ 0 by decide)
  have hlt := Int.emod_lt_of_pos count (show (0 : Int) < 146097 by decide)
  have hsplit := Int.mul_ediv_add_emod count 146097
  generalize hperiod : count / 146097 = period at hsplit ⊢
  generalize hin : count % 146097 = rest at hpos hlt hsplit ⊢
  generalize hnat : rest.toNat = inPeriod
  have hrest : rest = (inPeriod : Int) := by omega
  generalize hcentury : min (inPeriod / 36524) 3 = century
  generalize hinc : inPeriod - 36524 * century = inCentury
  generalize hgroup : inCentury / 1461 = group
  generalize hing : inCentury - 1461 * group = inGroup
  generalize hy : min (inGroup / 365) 3 = y
  generalize hiny : inGroup - 365 * y = inYear
  generalize hm : (5 * inYear + 2) / 153 = months
  have hc3 : century ≤ 3 := by omega
  have hic : inCentury ≤ 36524 := by omega
  have hip : inPeriod = 36524 * century + inCentury := by omega
  have hg : group ≤ 24 := by omega
  have hig : inCentury = 1461 * group + inGroup := by omega
  have hy3 : y ≤ 3 := by omega
  have hgy : inGroup = 365 * y + inYear := by omega
  have hiy : inYear ≤ 365 := by omega
  have hmo : months ≤ 11 := by omega
  have hday : (153 * months + 2) / 5 ≤ inYear := by omega
  generalize hyear : 400 * period + ((100 * century + 4 * group + y : Nat) : Int) = year
  have h4 : year / 4 = 100 * period + (25 * century + group : Nat) := by omega
  have h100 : year / 100 = 4 * period + (century : Nat) := by omega
  have h400 : year / 400 = period := by omega
  have hcnt : count = n + 719468 := by rw [← hcount]; rfl
  split <;> rename_i hlt10
  · simp only [dayNumber, monthsSinceMarch, daysSinceMarch, epochOffset]
    rw [if_neg (by omega)]
    have e : (months + 3 + 9) % 12 = months := by omega
    rw [e, h4, h100, h400]
    omega
  · simp only [dayNumber, monthsSinceMarch, daysSinceMarch, epochOffset]
    rw [if_pos (by omega)]
    have e : (months - 9 + 9) % 12 = months := by omega
    rw [e, show year + 1 - 1 = year by omega, h4, h100, h400]
    omega

theorem isReal_ofDayNumber (n : Int) : (ofDayNumber n).IsReal := by
  unfold ofDayNumber
  simp only
  generalize n + epochOffset = count
  have hpos := Int.emod_nonneg count (show (146097 : Int) ≠ 0 by decide)
  have hlt := Int.emod_lt_of_pos count (show (0 : Int) < 146097 by decide)
  generalize count / 146097 = period
  generalize count % 146097 = rest at hpos hlt ⊢
  generalize hnat : rest.toNat = inPeriod
  generalize hcentury : min (inPeriod / 36524) 3 = century
  generalize hinc : inPeriod - 36524 * century = inCentury
  generalize hgroup : inCentury / 1461 = group
  generalize hing : inCentury - 1461 * group = inGroup
  generalize hy : min (inGroup / 365) 3 = y
  generalize hiny : inGroup - 365 * y = inYear
  generalize hm : (5 * inYear + 2) / 153 = months
  have hiy : inYear ≤ 365 := by omega
  have hmo : months ≤ 11 := by omega
  have hlast : inYear = 365 → y = 3 ∧ (group = 24 → century = 3) := by omega
  have hg : group ≤ 24 := by omega
  split <;> rename_i hlt10
  · have hcases : months = 0 ∨ months = 1 ∨ months = 2 ∨ months = 3 ∨ months = 4 ∨
        months = 5 ∨ months = 6 ∨ months = 7 ∨ months = 8 ∨ months = 9 := by omega
    rcases hcases with h | h | h | h | h | h | h | h | h | h <;> subst h <;>
      simp [IsReal, daysInMonth, daysSinceMarch] <;> omega
  · have hcases : months = 10 ∨ months = 11 := by omega
    rcases hcases with h | h <;> subst h
    · simp [IsReal, daysInMonth, daysSinceMarch]; omega
    · simp only [IsReal, daysInMonth, daysSinceMarch]
      refine ⟨by omega, by omega, ?_⟩
      rw [if_pos trivial]
      split
      · omega
      · rename_i hleap
        have : inYear ≠ 365 := by
          intro h365
          obtain ⟨hy3, hcen⟩ := hlast h365
          apply hleap
          simp only [isLeap, Bool.and_eq_true, Bool.or_eq_true, decide_eq_true_eq,
            ne_eq, decide_not, Bool.not_eq_true', decide_eq_false_iff_not]
          omega
        omega

end Date

end Editorial
