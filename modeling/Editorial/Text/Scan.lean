import Editorial.Text.Blank

/-!
# Reading from the front of a text

A `Scan` takes characters from the front of a text and either fails or
answers with what it read, leaving the rest. Readers of instants, of JSON and
of settings files are built from the few scans below. Loops carry a bound,
which their callers take from the length of the text.
-/

namespace Editorial.Text

/-- Reads a value from the front of a text. -/
abbrev Scan (α : Type) := StateT (List Char) Option α

namespace Scan

/-- The next character, without taking it. -/
def peek : Scan (Option Char) := do return (← get).head?

/-- Takes the next character. -/
def next : Scan Char := fun
  | [] => none
  | c :: rest => some (c, rest)

/-- Takes `c`, which has to come next. -/
def char (c : Char) : Scan Unit := fun
  | [] => none
  | d :: rest => if d = c then some ((), rest) else none

/-- Takes the characters of `word`, which have to come next. -/
def word (s : String) : Scan Unit := s.toList.forM char

/-- Takes a character for which `p` holds, if one comes next. -/
def takeIf (p : Char → Bool) : Scan (Option Char) := fun
  | c :: rest => if p c then some (some c, rest) else some (none, c :: rest)
  | [] => some (none, [])

/-- Takes the longest run of characters for which `p` holds. -/
def run (p : Char → Bool) : Scan (List Char) := fun cs =>
  some (cs.takeWhile p, cs.dropWhile p)

/-- Takes the longest run for which `p` holds, which must not be empty. -/
def run1 (p : Char → Bool) : Scan (List Char) := do
  let cs ← run p
  guard !cs.isEmpty
  return cs

/-- Skips white space. -/
def blanks : Scan Unit := do let _ ← run isBlank

/-- Reads with `p`, or takes nothing where `p` fails. -/
def maybe {α : Type} (p : Scan α) : Scan (Option α) := fun cs =>
  match p cs with
  | some (a, rest) => some (some a, rest)
  | none => some (none, cs)

/-- Reads with `p` at the places from `i` on until it fails, at most `bound`
times. -/
def manyFrom {α : Type} (p : Nat → Scan α) : (bound i : Nat) → Scan (List α)
  | 0, _ => pure []
  | bound + 1, i => do
      match ← maybe (p i) with
      | none => return []
      | some a => return a :: (← manyFrom p bound (i + 1))

/-- Reads with `p` until it fails, at most `bound` times. -/
def many {α : Type} (p : Scan α) (bound : Nat) : Scan (List α) := manyFrom (fun _ => p) bound 0

/-- How many characters are left. -/
def left : Scan Nat := do return (← get).length

/-- Reads with `p` a text that `p` takes to its end. -/
def whole {α : Type} (p : Scan α) (s : String) : Option α :=
  match p s.toList with
  | some (a, []) => some a
  | _ => none

end Scan

/-! ## Decimal numbers -/

/-- The value of a decimal digit. -/
def digitValue (c : Char) : Nat := c.toNat - '0'.toNat

/-- The number written by decimal digits, most significant first. -/
def ofDigits (cs : List Char) : Nat :=
  cs.foldl (fun n c => 10 * n + digitValue c) 0

/-- Takes one to `most` decimal digits and answers their number. -/
def Scan.number (most : Nat) : Scan Nat := fun cs =>
  let digits := (cs.take most).takeWhile Char.isDigit
  if digits.isEmpty then none else some (ofDigits digits, cs.drop digits.length)

/-- The decimal digits of `n`, with zeros in front up to `width`. -/
def padded (width n : Nat) : List Char :=
  let digits := Nat.toDigits 10 n
  List.replicate (width - digits.length) '0' ++ digits

/-- Reads a natural number below `bound`, with an optional plus sign. -/
def readNat? (bound : Nat) (s : String) : Option Nat :=
  let digits := match s.toList with
    | '+' :: rest => rest
    | cs => cs
  if digits.isEmpty || !digits.all Char.isDigit then none
  else if ofDigits digits < bound then some (ofDigits digits) else none

end Editorial.Text
