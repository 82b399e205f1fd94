import Editorial.Json.Writer
import Editorial.Toml.Scalar

/-!
# Writing TOML

A string is written between double quotes. If that would need a backslash,
single quotes are taken instead, provided the string can stand between them as
it is.

This is the usual layout of strings without line breaks and control characters
in which a quote or a backslash comes with no single quote. The others would
usually be laid out in several lines or with short escapes. Here they are written
on one line as well, and by their codes, which is another text for the same
string.
-/

namespace Editorial.Toml

/-- A character as it stands between double quotes. Control characters stand
there by their codes, also those for which there is a short escape. -/
def escape (c : Char) : List Char :=
  if c = '"' then ['\\', '"']
  else if c = '\\' then ['\\', '\\']
  else if isPlain c then [c]
  else ['\\', 'u', '0', '0', Json.hexDigit (c.toNat / 16), Json.hexDigit (c.toNat % 16)]

/-- Whether a string can stand between single quotes. -/
def isLiteral (s : String) : Bool := s.toList.all fun c => isPlain c && c ≠ '\''

/-- A string with its quotes, on one line. -/
def quote (s : String) : String :=
  if (s.contains '"' || s.contains '\\') && isLiteral s then "'" ++ s ++ "'"
  else "\"" ++ String.ofList (s.toList.flatMap escape) ++ "\""

/-- An integer, if it fits 64 bits with a sign. -/
def integer? (n : Int) : Option String :=
  if Int64.minValue.toInt ≤ n ∧ n ≤ Int64.maxValue.toInt then some (toString n) else none

/-- A line that gives `name` a value. -/
def line (name value : String) : String := name ++ " = " ++ value ++ "\n"

end Editorial.Toml
