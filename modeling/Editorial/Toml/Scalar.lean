import Editorial.Json.Reader
import Editorial.Time.Calendar
import Editorial.Toml.Basic

/-!
# TOML scalars

Strings, numbers, dates and truth values. A line ends in a line feed, with or
without a carriage return before it; a carriage return alone, and every other
control character but the tab, is refused wherever it stands.
-/

namespace Editorial.Toml

open Text Scan

/-! ## Characters -/

/-- Whether `c` may stand in a comment and, quotes and backslashes apart, in a
string. -/
def isPlain (c : Char) : Bool := c = '\t' || (0x20 ≤ c.toNat && c.toNat ≠ 0x7F)

/-- Whether `c` is a blank within a line. -/
def isGap (c : Char) : Bool := c = ' ' || c = '\t'

/-- Skips the blanks within a line. -/
def gap : Scan Unit := do let _ ← run isGap

/-- The end of a line. -/
def newline : Scan Unit := char '\n' <|> word "\r\n"

/-! ## Strings -/

/-- What follows a backslash. -/
def scanEscape : Scan Char := do
  match ← next with
  | '"' => return '"'
  | '\\' => return '\\'
  | 'b' => return '\x08'
  | 'f' => return '\x0c'
  | 'n' => return '\n'
  | 'r' => return '\r'
  | 't' => return '\t'
  | 'u' => (Json.charOfCode? (← Json.scanHex 4) : Option Char)
  | 'U' => (Json.charOfCode? (← Json.scanHex 8) : Option Char)
  | _ => failure

/-- A character between double quotes. -/
def scanBasicChar : Scan Char := do
  match ← next with
  | '\\' => scanEscape
  | '"' => failure
  | c => guard (isPlain c); return c

/-- A string in double quotes. -/
def scanBasic (bound : Nat) : Scan String := do
  char '"'
  let cs ← many scanBasicChar bound
  char '"'
  return String.ofList cs

/-- A string in single quotes, where a backslash is a character like any
other. -/
def scanLiteral : Scan String := do
  char '\''
  let cs ← run fun c => isPlain c && c ≠ '\''
  char '\''
  return String.ofList cs

/-- A line that is continued: a backslash, the end of the line, and all blanks
and line ends after it. -/
def scanContinuation (bound : Nat) : Scan Unit := do
  char '\\'
  gap
  newline
  let _ ← many (newline <|> do let _ ← run1 isGap) bound

/-- The end of a line in a string, which is always a line feed. -/
def scanLineFeed : Scan Char := do newline; return '\n'

/-- Quotes that end a string of several lines. Of up to five quotes the last
three end it. -/
def scanClosing (quote : Char) : Scan (List Char) := do
  let quotes ← run (· = quote)
  guard (3 ≤ quotes.length ∧ quotes.length ≤ 5)
  return quotes.drop 3

/-- One or two quotes within a string of several lines. -/
def scanInnerQuotes (quote : Char) : Scan (List Char) := do
  let quotes ← run1 (· = quote)
  guard (quotes.length ≤ 2)
  return quotes

/-- A string of several lines, between three quotes on either side. A line end
right after the opening quotes does not belong to it. -/
def scanBlock (bound : Nat) (quote : Char) (piece : Scan (List Char)) : Scan String := do
  word (String.ofList [quote, quote, quote])
  let _ ← maybe newline
  let pieces ← many (piece <|> scanInnerQuotes quote) bound
  let inner ← scanClosing quote
  return String.ofList (pieces.flatten ++ inner)

/-- A piece of a string of several lines between double quotes. -/
def scanBasicPiece (bound : Nat) : Scan (List Char) :=
  (do scanContinuation bound; return [])
    <|> (do return [← scanLineFeed])
    <|> (do return [← scanBasicChar])

/-- A piece of a string of several lines between single quotes. -/
def scanLiteralPiece : Scan (List Char) :=
  (do return [← scanLineFeed]) <|> run1 fun c => isPlain c && c ≠ '\''

/-- A string in any of the four forms. -/
def scanString (bound : Nat) : Scan String :=
  scanBlock bound '"' (scanBasicPiece bound)
    <|> scanBasic bound
    <|> scanBlock bound '\'' scanLiteralPiece
    <|> scanLiteral

/-! ## Numbers -/

/-- A run of digits; single underscores may stand between them. -/
def scanDigits (bound : Nat) (isDigit : Char → Bool) : Scan (List Char) := do
  let first ← run1 isDigit
  let rest ← many (do char '_'; run1 isDigit) bound
  return first ++ rest.flatten

/-- The digits of a whole number: a zero, or digits that do not start with
one. -/
def scanWhole (bound : Nat) : Scan (List Char) := do
  let digits ← scanDigits bound Char.isDigit
  guard (digits.length = 1 ∨ digits.head? ≠ some '0')
  return digits

/-- Whether a sign is there and is a minus. -/
def scanSign : Scan Bool := do
  return (← takeIf fun c => c = '+' || c = '-') = some '-'

/-- An integer of 64 bits. -/
def narrow? (n : Int) : Option Node :=
  if Int64.minValue.toInt ≤ n ∧ n ≤ Int64.maxValue.toInt then some (.integer n) else none

/-- An integer in base ten. -/
def scanDecimal (bound : Nat) : Scan Node := do
  let negative ← scanSign
  let n : Int := ofDigits (← scanWhole bound)
  (narrow? (if negative then -n else n) : Option Node)

/-- An integer in another base, after a zero and the letter `mark`. -/
def scanBased (bound : Nat) (mark : Char) (base : Nat) : Scan Node := do
  char '0'
  char mark
  let digits ← scanDigits bound fun c => (Json.hexValue? c).any (· < base)
  let n := digits.foldl (fun n c => base * n + (Json.hexValue? c).getD 0) 0
  (narrow? n : Option Node)

/-- Whether `significand · 10 ^ exponent` is too large for a double: it is no
less than the middle between the largest double and the power of two after
it. -/
def overflows (significand : Nat) (exponent : Int) : Bool :=
  let digits := (Nat.toDigits 10 significand).length
  if significand = 0 || digits + exponent < 308 then false
  else if 400 < digits + exponent then true
  else Nat.pow 2 1024 - Nat.pow 2 970 ≤
    (if 0 ≤ exponent then significand * Nat.pow 10 exponent.toNat
     else significand / Nat.pow 10 (-exponent).toNat)

/-- The power of ten of a number with a fraction. -/
def scanExponent (bound : Nat) : Scan Int := do
  let c ← next
  guard (c = 'e' ∨ c = 'E')
  let negative ← scanSign
  let n : Int := ofDigits (← scanDigits bound Char.isDigit)
  return if negative then -n else n

/-- A number with a point, a power of ten, or both. One that is too large is
refused, unless it is negative. -/
def scanFraction (bound : Nat) : Scan Node := do
  let negative ← scanSign
  let whole ← scanWhole bound
  let places ← maybe do char '.'; scanDigits bound Char.isDigit
  let exponent ← maybe (scanExponent bound)
  guard (places.isSome ∨ exponent.isSome)
  let fraction := places.getD []
  guard (negative ∨
    !overflows (ofDigits (whole ++ fraction)) (exponent.getD 0 - fraction.length))
  return .float

/-- Infinity, or what is no number. -/
def scanSpecial : Scan Node := do
  let _ ← scanSign
  word "inf" <|> word "nan"
  return .float

/-! ## Dates -/

/-- A number of exactly `width` digits, in a range. -/
def scanField (width low high : Nat) : Scan Nat := do
  let digits ← run Char.isDigit
  let rest ← get
  guard (width ≤ digits.length)
  set (digits.drop width ++ rest)
  let n := ofDigits (digits.take width)
  guard (low ≤ n ∧ n ≤ high)
  return n

/-- A real date of the calendar. -/
def scanDay : Scan Unit := do
  let year ← scanField 4 0 9999
  char '-'
  let month ← scanField 2 1 12
  char '-'
  let day ← scanField 2 1 31
  guard (day ≤ Date.daysInMonth year month)

/-- A time of day with its seconds, of which there may be 60. -/
def scanClock : Scan Unit := do
  let _ ← scanField 2 0 23
  char ':'
  let _ ← scanField 2 0 59
  char ':'
  let _ ← scanField 2 0 60
  let _ ← maybe do char '.'; run1 Char.isDigit

/-- An offset from UTC. -/
def scanOffset : Scan Unit := do
  match ← next with
  | 'Z' | 'z' => return
  | '+' | '-' =>
      let _ ← scanField 2 0 23
      char ':'
      let _ ← scanField 2 0 59
  | _ => failure

/-- A date, a time, or a date with a time and perhaps an offset. -/
def scanDate : Scan Node := do
  scanClock <|> do
    scanDay
    let _ ← maybe do
      let c ← next
      guard (c = 'T' ∨ c = 't' ∨ c = ' ')
      scanClock
      let _ ← maybe scanOffset
  return .date

/-! ## Any scalar -/

/-- A value that holds no other values. -/
def scanScalar (bound : Nat) : Scan Node :=
  (do return .string (← scanString bound))
    <|> scanDate
    <|> scanFraction bound
    <|> scanSpecial
    <|> scanBased bound 'x' 16
    <|> scanBased bound 'o' 8
    <|> scanBased bound 'b' 2
    <|> scanDecimal bound
    <|> (do word "true"; return .boolean true)
    <|> (do word "false"; return .boolean false)

end Editorial.Toml
