import Editorial.Time.Text
import Editorial.Proofs.Text.Digits

/-!
# Instants are read back from their text

Every instant of the calendar is read back from the text written for it: before
and after 1970, in years with a sign, with any fraction of a second, and within
a leap second. Of the parts of the text only the year and the fraction can have
more than one length. A year of more than four digits would be cut off by the
reader, and is therefore written with a sign, after which the reader takes all
digits; a fraction is exact in the length it is written in, so the zeros the
reader adds multiply it back to nanoseconds.

That the date and the second counts of the text lie within what the reader
accepts has to be shown too. The reader checks the year against the calendar's
own bounds, and an instant keeps its bounds in seconds; the order of the dates
leads from one to the other (`year_mem_calendar`).

## Main results

* `Date.dayNumber_lt_of_year_lt` — days of later years have larger numbers.
* `Instant.read?_write` — every instant is read back from its text.
-/

namespace Editorial

open Text Scan

/-! ## Years and day numbers -/

namespace Date

theorem newYear_le {date : Date} (h : date.IsReal) :
    (Date.mk date.year 1 1).dayNumber ≤ date.dayNumber := by
  obtain ⟨⟨hfirst, hlast⟩, hday, -⟩ := h
  simp only [dayNumber, daysSinceMarch, monthsSinceMarch]
  by_cases hmonth : date.month ≤ 2 <;> simp [hmonth] <;> omega

theorem daysInMonth_le (year : Int) (month : Nat) : daysInMonth year month ≤ 31 := by
  unfold daysInMonth
  repeat' split
  all_goals omega

theorem lt_newYear {date : Date} (h : date.IsReal) :
    date.dayNumber < (Date.mk (date.year + 1) 1 1).dayNumber := by
  obtain ⟨⟨hfirst, hlast⟩, hday, hlength⟩ := h
  have hle := daysInMonth_le date.year date.month
  simp only [dayNumber, daysSinceMarch, monthsSinceMarch]
  by_cases hmonth : date.month ≤ 2 <;> simp [hmonth] <;> omega

theorem newYear_le_newYear {y z : Int} (h : y ≤ z) :
    (Date.mk y 1 1).dayNumber ≤ (Date.mk z 1 1).dayNumber := by
  simp [dayNumber, daysSinceMarch, monthsSinceMarch]
  omega

/-- Days of later years have larger numbers. -/
theorem dayNumber_lt_of_year_lt {a b : Date} (ha : a.IsReal) (hb : b.IsReal)
    (h : a.year < b.year) : a.dayNumber < b.dayNumber :=
  calc a.dayNumber < (Date.mk (a.year + 1) 1 1).dayNumber := lt_newYear ha
    _ ≤ (Date.mk b.year 1 1).dayNumber := newYear_le_newYear (by omega)
    _ ≤ b.dayNumber := newYear_le hb

end Date

namespace Instant

/-- The day of an instant lies in a year the reader accepts. -/
theorem year_mem_calendar (t : Instant) :
    firstYear ≤ (Date.ofDayNumber (t.second / 86400)).year ∧
      (Date.ofDayNumber (t.second / 86400)).year ≤ lastYear := by
  have hreal := Date.isReal_ofDayNumber (t.second / 86400)
  have hnumber := Date.dayNumber_ofDayNumber (t.second / 86400)
  have hafter := t.afterFirst
  have hbefore := t.beforeLast
  constructor
  · by_contra hyear
    have hlt := Date.dayNumber_lt_of_year_lt (b := ⟨firstYear, 1, 1⟩) hreal (by decide)
      (Int.not_le.1 hyear)
    have hfirst : (Date.mk firstYear 1 1).dayNumber = -96465292 := by decide
    omega
  · by_contra hyear
    have hlt := Date.dayNumber_lt_of_year_lt (a := ⟨lastYear, 12, 31⟩) (by decide) hreal
      (Int.not_le.1 hyear)
    have hlast : (Date.mk lastYear 12 31).dayNumber = 95026236 := by decide
    omega

/-! ## Parts of the text -/

variable {rest : List Char}

theorem scanMark_cons {mark : Char} (h : isBlank mark = false) (rest : List Char) :
    scanMark mark (mark :: rest) = some ((), rest) := by
  rw [scanMark, eval_bind (blanks_of_stops (stops_cons.2 h))]
  exact char_cons mark rest

theorem scanShort_padded {n : Nat} (h : n < 100) (hstop : Stops Char.isDigit rest) :
    scanShort (padded 2 n ++ rest) = some (n, rest) := by
  rw [scanShort, eval_bind (blanks_of_stops (stops_isBlank_padded 2 n rest))]
  exact number_padded (Nat.le_of_eq (length_padded (by decide) h)) hstop

/-- A year without sign starts with a digit. -/
theorem scanYear_of_isDigit {c : Char} (h : c.isDigit = true) (cs : List Char) :
    scanYear (c :: cs) = (do return ((← number 4) : Int) : Scan Int) (c :: cs) := by
  have hpeek : peek (c :: cs) = some (some c, c :: cs) := rfl
  rw [scanYear, eval_bind (blanks_of_stops (stops_cons.2 (isBlank_of_isDigit h))),
    eval_bind hpeek]
  refine congrFun ?_ (c :: cs)
  split
  · rename_i hc; cases hc; exact absurd h (by decide)
  · rename_i hc; cases hc; exact absurd h (by decide)
  · rfl

theorem scanYear_minus (cs : List Char) :
    scanYear ('-' :: cs) = (do return -((← number (← left)) : Int) : Scan Int) cs := rfl

theorem scanYear_plus (cs : List Char) :
    scanYear ('+' :: cs) = (do return ((← number (← left)) : Int) : Scan Int) cs := rfl

theorem scanYear_yearText (year : Int) (hstop : Stops Char.isDigit rest) :
    scanYear (yearText year ++ rest) = some (year, rest) := by
  have hleft (n : Nat) : left (padded 4 n ++ rest) =
      some ((padded 4 n ++ rest).length, padded 4 n ++ rest) := rfl
  have hnumber (n : Nat) : number (padded 4 n ++ rest).length (padded 4 n ++ rest) =
      some (n, rest) := number_padded (by simp) hstop
  by_cases hshort : 0 ≤ year ∧ year ≤ 9999
  · rw [yearText, if_pos hshort]
    have hlength : (padded 4 year.toNat).length = 4 := length_padded (by decide) (by omega)
    obtain ⟨c, digits, hdigits⟩ := List.exists_cons_of_ne_nil (padded_ne_nil 4 year.toNat)
    have hc : c.isDigit = true := isDigit_of_mem_padded (hdigits ▸ List.mem_cons_self)
    rw [hdigits, List.cons_append, scanYear_of_isDigit hc, ← List.cons_append, ← hdigits,
      eval_bind (number_padded (Nat.le_of_eq hlength) hstop)]
    have hyear : (year.toNat : Int) = year := by omega
    rw [hyear]
    rfl
  · rw [yearText, if_neg hshort]
    by_cases hnegative : year < 0
    · rw [if_pos hnegative, List.cons_append, scanYear_minus, eval_bind (hleft _),
        eval_bind (hnumber _)]
      have hyear : -(year.natAbs : Int) = year := by omega
      rw [hyear]
      rfl
    · rw [if_neg hnegative, List.cons_append, scanYear_plus, eval_bind (hleft _),
        eval_bind (hnumber _)]
      have hyear : (year.natAbs : Int) = year := by omega
      rw [hyear]
      rfl

theorem scanDate_text {date : Date} (hreal : date.IsReal) (hfirst : firstYear ≤ date.year)
    (hlast : date.year ≤ lastYear) (hstop : Stops Char.isDigit rest) :
    scanDate (yearText date.year ++
      '-' :: (padded 2 date.month ++ '-' :: (padded 2 date.day ++ rest))) = some (date, rest) := by
  have hdays := Date.daysInMonth_le date.year date.month
  have hmonth : date.month < 100 := by have := hreal.1; omega
  have hday : date.day < 100 := by have := hreal.2; omega
  rw [scanDate, eval_bind (scanYear_yearText _ (by simp)),
    eval_bind (scanMark_cons (by decide) _), eval_bind (scanShort_padded hmonth (by simp)),
    eval_bind (scanMark_cons (by decide) _), eval_bind (scanShort_padded hday hstop)]
  exact eval_bind (eval_guard ⟨hfirst, hlast, hreal⟩ rest)

/-! ## The time of day -/

theorem scanFraction_point (cs : List Char) :
    scanFraction ('.' :: cs) =
      (do let digits ← run1 Char.isDigit
          return ofDigits ((digits ++ List.replicate 9 '0').take 9) : Scan Nat) cs := rfl

/-- The zeros the reader adds multiply the digits to nanoseconds. -/
theorem scanFraction_padded {width n : Nat} (hwidth : 0 < width) (hnine : width ≤ 9)
    (h : n < 10 ^ width) (hstop : Stops Char.isDigit rest) :
    scanFraction ('.' :: padded width n ++ rest) = some (n * 10 ^ (9 - width), rest) := by
  have hlength := length_padded hwidth h
  have htake : (padded width n ++ List.replicate 9 '0').take 9 =
      padded width n ++ List.replicate (9 - width) '0' := by
    rw [List.take_append, List.take_of_length_le (by omega), hlength, List.take_replicate,
      Nat.min_eq_left (by omega)]
  rw [List.cons_append, scanFraction_point,
    eval_bind (run1_append (padded_ne_nil width n) (fun c hc => isDigit_of_mem_padded hc) hstop),
    htake, ofDigits_append_replicate_zero, ofDigits_padded]
  rfl

theorem stops_isDigit_fractionText (n : Nat) (hstop : Stops Char.isDigit rest) :
    Stops Char.isDigit (fractionText n ++ rest) := by
  unfold fractionText
  split
  · exact hstop
  · split
    · simp
    · split <;> simp

theorem scanFraction_fractionText {n : Nat} (h : n < 1000000000) (rest : List Char) :
    scanFraction (fractionText n ++ 'Z' :: rest) = some (n, 'Z' :: rest) := by
  have hstop : Stops Char.isDigit ('Z' :: rest) := by simp
  unfold fractionText
  split
  · rename_i hzero
    rw [hzero]
    rfl
  · split
    · rw [scanFraction_padded (by decide) (by decide) (by omega) hstop]
      have hexact : n / 1000000 * 10 ^ (9 - 3) = n := by omega
      rw [hexact]
    · split
      · rw [scanFraction_padded (by decide) (by decide) (by omega) hstop]
        have hexact : n / 1000 * 10 ^ (9 - 6) = n := by omega
        rw [hexact]
      · rw [scanFraction_padded (by decide) (by decide) (by omega) hstop]
        simp

/-- A time of day is read back as the second of the day and the nanosecond
within it, which counts on through a leap second. -/
theorem scanTime_text {inDay leap fraction : Nat} (hday : inDay < 86400)
    (hleap : leap = 0 ∨ leap = 1 ∧ inDay % 60 = 59) (hfraction : fraction < 1000000000)
    (rest : List Char) :
    scanTime (padded 2 (inDay / 3600) ++ ':' :: (padded 2 (inDay / 60 % 60) ++
        ':' :: (padded 2 (inDay % 60 + leap) ++ (fractionText fraction ++ 'Z' :: rest)))) =
      some ((inDay, fraction + 1000000000 * leap), 'Z' :: rest) := by
  have hstop : Stops Char.isDigit (fractionText fraction ++ 'Z' :: rest) :=
    stops_isDigit_fractionText fraction (by simp)
  rw [scanTime, eval_bind (scanShort_padded (by omega) (by simp)),
    eval_bind (scanMark_cons (by decide) _), eval_bind (scanShort_padded (by omega) (by simp)),
    eval_bind (scanMark_cons (by decide) _), eval_bind (scanShort_padded (by omega) hstop),
    eval_bind (scanFraction_fractionText hfraction rest),
    eval_bind (eval_guard (by omega) _)]
  by_cases hsecond : inDay % 60 + leap = 60
  · rw [if_pos hsecond]
    have hinDay : 3600 * (inDay / 3600) + 60 * (inDay / 60 % 60) + 59 = inDay := by omega
    have hone : leap = 1 := by omega
    rw [hinDay, hone]
    rfl
  · rw [if_neg hsecond]
    have hzero : leap = 0 := by omega
    have hinDay : 3600 * (inDay / 3600) + 60 * (inDay / 60 % 60) + (inDay % 60 + leap) = inDay := by
      omega
    rw [hinDay, hzero]
    rfl

/-! ## Whole texts -/

theorem scanSeparator_cons (rest : List Char) :
    scanSeparator ('T' :: rest) = some ((), rest) := rfl

theorem scanZone_cons (rest : List Char) : scanZone ('Z' :: rest) = some (0, rest) := rfl

/-- What the writer says of the second and of the nanosecond is the instant's
own count again. -/
theorem scan_writeList (t : Instant) : scan (t.writeList ['Z']) = some (t, []) := by
  have hreal := Date.isReal_ofDayNumber (t.second / 86400)
  obtain ⟨hfirst, hlast⟩ := year_mem_calendar t
  have hwithin := t.withinSecond
  simp only [writeList, List.append_assoc, List.cons_append]
  generalize hleap : (if t.nanosecond < 1000000000 then 0 else 1) = leap
  generalize hinDay : (t.second % 86400).toNat = inDay
  have hcases : leap = 0 ∧ t.nanosecond < 1000000000 ∨
      leap = 1 ∧ 1000000000 ≤ t.nanosecond := by
    split at hleap <;> omega
  have hnanosecond : t.nanosecond - 1000000000 * leap + 1000000000 * leap = t.nanosecond := by
    omega
  rw [scan, eval_bind (scanDate_text hreal hfirst hlast (by simp)),
    eval_bind (scanSeparator_cons _),
    eval_bind (scanTime_text (by omega) (by omega) (by omega) [])]
  dsimp only
  rw [eval_bind (scanZone_cons _), eval_bind (blanks_of_stops (stops_nil _)),
    Date.dayNumber_ofDayNumber, hnanosecond]
  have hsecond : 86400 * (t.second / 86400) + (inDay : Int) - 0 = t.second := by omega
  rw [hsecond, ofCounts?_counts]
  rfl

/-- Every instant is read back from its text. -/
theorem read?_write (t : Instant) : read? t.write = some t := by
  rw [read?, write, whole, String.toList_ofList, scan_writeList]

example : (⟨253402300800, 1, by decide, by decide, by decide⟩ : Instant).write =
    "+10000-01-01T00:00:00.000000001Z" := by decide

end Instant

end Editorial
