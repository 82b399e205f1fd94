import Editorial.Json.Basic
import Editorial.Text.Scan

/-!
# The tokens of JSON

Numbers, strings and words, and the white space between them. A number too
large for a double has no value, and neither has a string that holds half of a
character; both are well formed all the same, so they can be passed over.
-/

namespace Editorial

namespace Json

open Text Scan

/-- The white space JSON allows between tokens. -/
def isSpace (c : Char) : Bool := c = ' ' || c = '\n' || c = '\t' || c = '\r'

/-- Skips the white space between tokens. -/
def spaces : Scan Unit := do let _ ← run isSpace

/-! ## Numbers -/

/-- Takes on digits while the number fits 64 bits: the number and how many
digits were taken. -/
def takeSignificand : (significand : Nat) → List Char → Nat × Nat
  | significand, [] => (significand, 0)
  | significand, c :: rest =>
      let longer := 10 * significand + digitValue c
      if longer < UInt64.size then
        let (n, count) := takeSignificand longer rest
        (n, count + 1)
      else (significand, 0)

/-- The number for the digits before and after the point and the power of ten
after them. Digits that 64 bits cannot hold are dropped, those before the point
leaving their weight behind. -/
def decimal? (negative : Bool) (whole fraction : List Char) (exponent : Int) : Option Double :=
  let (n, taken) := takeSignificand 0 whole
  let (significand, places) := takeSignificand n fraction
  Double.ofScaled? negative significand (exponent + (whole.length - taken : Nat) - places)

/-- The digits before the point: a zero, or digits that do not start with one. -/
def scanWhole : Scan (List Char) := do
  let digits ← run1 Char.isDigit
  guard (digits.length = 1 ∨ digits.head? ≠ some '0')
  return digits

/-- The digits after the point, if there is one. -/
def scanPlaces : Scan (Option (List Char)) := do
  match ← takeIf (· = '.') with
  | none => return none
  | some _ => return some (← run1 Char.isDigit)

/-- The power of ten, if one is given. -/
def scanExponent : Scan (Option Int) := do
  match ← takeIf (fun c => c = 'e' || c = 'E') with
  | none => return none
  | some _ =>
      let sign ← takeIf (fun c => c = '+' || c = '-')
      let n := ofDigits (← run1 Char.isDigit)
      return some (if sign = some '-' then -n else n)

/-- A number as it is written. -/
structure Numeral where
  negative : Bool
  /-- The digits before the point. -/
  whole : List Char
  /-- The digits after the point, if there is one. -/
  places : Option (List Char)
  /-- The power of ten, if one is given. -/
  exponent : Option Int

/-- A number, whatever its value. -/
def scanNumeral : Scan Numeral := do
  let negative := (← takeIf (· = '-')).isSome
  return ⟨negative, ← scanWhole, ← scanPlaces, ← scanExponent⟩

/-- The value of a number. Without point and power of ten it is an integer if
it fits 64 bits, signed or unsigned; all others are doubles, and so is -0. -/
def Numeral.value? (numeral : Numeral) : Option Json :=
  let n := ofDigits numeral.whole
  let isInteger := numeral.places.isNone && numeral.exponent.isNone &&
    (if numeral.negative then 0 < n && n ≤ UInt64.size / 2 else n < UInt64.size)
  if isInteger then some (.integer (if numeral.negative then -n else n))
  else (decimal? numeral.negative numeral.whole (numeral.places.getD [])
    (numeral.exponent.getD 0)).map .double

/-- A number that has a value. -/
def scanNumber : Scan Json := do
  let numeral ← scanNumeral
  (numeral.value? : Option Json)

/-! ## Strings -/

/-- The value of a hexadecimal digit. -/
def hexValue? (c : Char) : Option Nat :=
  if c.isDigit then some (digitValue c)
  else if 'a' ≤ c ∧ c ≤ 'f' then some (c.toNat - 'a'.toNat + 10)
  else if 'A' ≤ c ∧ c ≤ 'F' then some (c.toNat - 'A'.toNat + 10)
  else none

/-- `count` hexadecimal digits. -/
def scanHex : (count : Nat) → Scan Nat
  | 0 => return 0
  | count + 1 => do
      let high ← (hexValue? (← next) : Option Nat)
      let low ← scanHex count
      return high * Nat.pow 16 count + low

/-- The character with this code, unless the code is a surrogate or too large. -/
def charOfCode? (code : Nat) : Option Char :=
  if h : code.isValidChar then some (Char.ofNatAux code h) else none

/-- What follows `\u`: a character, or the two halves of one. -/
def scanUnicode : Scan Char := do
  let unit ← scanHex 4
  if 0xD800 ≤ unit ∧ unit < 0xDC00 then
    word "\\u"
    let second ← scanHex 4
    guard (0xDC00 ≤ second ∧ second < 0xE000)
    (charOfCode? (0x10000 + (unit - 0xD800) * 0x400 + (second - 0xDC00)) : Option Char)
  else (charOfCode? unit : Option Char)

/-- What follows a backslash. -/
def scanEscape : Scan Char := do
  match ← next with
  | '"' => return '"'
  | '\\' => return '\\'
  | '/' => return '/'
  | 'b' => return '\x08'
  | 'f' => return '\x0c'
  | 'n' => return '\n'
  | 'r' => return '\r'
  | 't' => return '\t'
  | 'u' => scanUnicode
  | _ => failure

/-- A character of a string, which control characters and the closing quote
are not. -/
def scanStringChar : Scan Char := do
  match ← next with
  | '\\' => scanEscape
  | '"' => failure
  | c => guard (0x20 ≤ c.toNat); return c

/-- A string. Here as below, no loop takes more rounds than the text has
characters, and `bound` is that number. -/
def scanString (bound : Nat) : Scan String := do
  char '"'
  let cs ← many scanStringChar bound
  char '"'
  return String.ofList cs

/-! ## Scalars -/

/-- A value that is no container. -/
def scanScalar (bound : Nat) : Scan Json := do
  match ← peek with
  | some 'n' => word "null"; return .null
  | some 't' => word "true"; return .boolean true
  | some 'f' => word "false"; return .boolean false
  | some '"' => return .string (← scanString bound)
  | _ => scanNumber

/-! ## Passing over -/

/-- Passes over a character of a string or an escape, which may be half of a
character. -/
def skipStringChar : Scan Unit := do
  match ← next with
  | '\\' =>
      match ← next with
      | 'u' => let _ ← scanHex 4
      | c => guard ("\"\\/bfnrt".toList.contains c)
  | '"' => failure
  | c => guard (0x20 ≤ c.toNat)

/-- Passes over a string. -/
def skipString (bound : Nat) : Scan Unit := do
  char '"'
  let _ ← many skipStringChar bound
  char '"'

/-- Passes over a value that is no container. -/
def skipScalar (bound : Nat) : Scan Unit := do
  match ← peek with
  | some 'n' => word "null"
  | some 't' => word "true"
  | some 'f' => word "false"
  | some '"' => skipString bound
  | _ => let _ ← scanNumeral

end Json

end Editorial
