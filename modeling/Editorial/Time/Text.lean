import Editorial.Time.Instant
import Editorial.Text.Scan

/-!
# The text of an instant

Instants are written as RFC 3339 has it: date, `T`, time, the shortest of no,
three, six or nine fraction digits that is exact, and the zone. A leap second
is written as second 60. Years outside 0 to 9999 carry a sign.

Reading is more liberal than writing. White space may stand before every
number and mark of the date and of the time; months, days, hours, minutes and
seconds may have one digit; a year without sign has at most four digits and
one with a sign any number; fraction digits past the ninth are dropped; the
zone is `Z`, `UTC` in any case, or an offset from UTC whose colon may be left
out. The date has to be a real one and the instant has to lie within the
calendar.
-/

namespace Editorial

namespace Instant

open Text

/-! ## Writing -/

/-- The year, with a sign outside 0 to 9999. -/
def yearText (year : Int) : List Char :=
  if 0 ≤ year ∧ year ≤ 9999 then padded 4 year.toNat
  else (if year < 0 then '-' else '+') :: padded 4 year.natAbs

/-- The shortest of 0, 3, 6 and 9 fraction digits that is exact. -/
def fractionText (nanosecond : Nat) : List Char :=
  if nanosecond = 0 then []
  else if nanosecond % 1000000 = 0 then '.' :: padded 3 (nanosecond / 1000000)
  else if nanosecond % 1000 = 0 then '.' :: padded 6 (nanosecond / 1000)
  else '.' :: padded 9 nanosecond

/-- The instant in UTC, with `zone` for the zone. -/
def writeList (t : Instant) (zone : List Char) : List Char :=
  let date := Date.ofDayNumber (t.second / 86400)
  let inDay := (t.second % 86400).toNat
  let leap := if t.nanosecond < 1000000000 then 0 else 1
  yearText date.year ++ '-' :: padded 2 date.month ++ '-' :: padded 2 date.day
    ++ 'T' :: padded 2 (inDay / 3600) ++ ':' :: padded 2 (inDay / 60 % 60)
    ++ ':' :: padded 2 (inDay % 60 + leap)
    ++ fractionText (t.nanosecond - 1000000000 * leap) ++ zone

/-- The instant as records hold it. -/
def write (t : Instant) : String := String.ofList (t.writeList ['Z'])

/-- The instant as messages show it. -/
def inMessage (t : Instant) : String := String.ofList (t.writeList "+00:00".toList)

/-! ## Reading -/

open Scan

/-- A number of one or two digits, with white space before it. -/
def scanShort : Scan Nat := do blanks; number 2

/-- `mark`, with white space before it. -/
def scanMark (mark : Char) : Scan Unit := do blanks; char mark

/-- A year: up to four digits, or a sign and any number of digits. -/
def scanYear : Scan Int := do
  blanks
  match ← peek with
  | some '-' => char '-'; return -((← number (← left)) : Int)
  | some '+' => char '+'; return ((← number (← left)) : Int)
  | _ => return ((← number 4) : Int)

/-- A real date of the calendar. -/
def scanDate : Scan Date := do
  let year ← scanYear
  scanMark '-'
  let month ← scanShort
  scanMark '-'
  let day ← scanShort
  let date : Date := ⟨year, month, day⟩
  guard (firstYear ≤ year ∧ year ≤ lastYear ∧ date.IsReal)
  return date

/-- The mark between date and time. -/
def scanSeparator : Scan Unit := do
  let c ← next
  guard (c = 'T' ∨ c = 't' ∨ c = ' ')

/-- A fraction of a second in nanoseconds; digits past the ninth are dropped. -/
def scanFraction : Scan Nat := do
  match ← peek with
  | some '.' =>
      char '.'
      let digits ← run1 Char.isDigit
      return ofDigits ((digits ++ List.replicate 9 '0').take 9)
  | _ => return 0

/-- A time of day: the second of the day and the nanosecond within it. -/
def scanTime : Scan (Nat × Nat) := do
  let hour ← scanShort
  scanMark ':'
  let minute ← scanShort
  scanMark ':'
  let second ← scanShort
  let fraction ← scanFraction
  guard (hour < 24 ∧ minute < 60 ∧ second ≤ 60)
  let whole := 3600 * hour + 60 * minute
  return if second = 60 then (whole + 59, fraction + 1000000000) else (whole + second, fraction)

/-- Two digits. -/
def scanPair : Scan Nat := do
  let tens ← next
  let ones ← next
  guard (tens.isDigit ∧ ones.isDigit)
  return 10 * digitValue tens + digitValue ones

/-- Takes `word` in upper or lower case. -/
def scanWord (word : List Char) : Scan Unit := do
  for c in word do
    guard ((← next).toUpper = c)

/-- An offset from UTC in seconds, of less than a day either way. -/
def scanOffset : Scan Int := do
  let sign : Int ← match ← next with
    | '+' => pure 1
    | '-' => pure (-1)
    | '\u2212' => pure (-1)
    | _ => failure
  let hour ← scanPair
  let _ ← run fun c => c = ':' || isBlank c
  let minute ← scanPair
  guard (hour < 24 ∧ minute < 60)
  return sign * (3600 * hour + 60 * minute : Nat)

/-- The zone, as its offset from UTC in seconds. -/
def scanZone : Scan Int := do
  blanks
  match ← peek with
  | some 'Z' | some 'z' => let _ ← next; return 0
  | some 'U' | some 'u' => scanWord ['U', 'T', 'C']; return 0
  | _ => scanOffset

/-- Date, time and zone, moved to UTC. -/
def scan : Scan Instant := do
  let date ← scanDate
  scanSeparator
  let (inDay, nanosecond) ← scanTime
  let offset ← scanZone
  blanks
  (ofCounts? (86400 * date.dayNumber + inDay - offset) nanosecond : Option Instant)

/-- The instant a text stands for. -/
def read? (s : String) : Option Instant := whole scan s

end Instant

end Editorial
