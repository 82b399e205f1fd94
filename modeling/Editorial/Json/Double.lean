/-!
# Numbers that are not integers

A JSON number that is no integer of 64 bits is kept as a binary64 number, by
its bit pattern: so equality is decidable, and -0.0 is a value of its own.

* Reading rounds the significand, as far as it fits 64 bits, to a double and
  scales it by a power of ten, which is itself exact up to 10²² and rounded
  beyond. A number too large for a double cannot be read.
* Writing takes the fewest digits that no other double is nearer to, and of
  those the nearest to the value.
-/

namespace Editorial

/-- A finite binary64 number, by its bit pattern. -/
structure Double where
  bits : UInt64
deriving DecidableEq

namespace Double

/-! ## Reading -/

/-- 10 to the power `n`, rounded. -/
def powerOfTen (n : Nat) : Float := Float.ofScientific 1 false n

/-- `x` scaled down by ten to the power `n`, at most 308 powers at a time, as
larger powers are no doubles. After three rounds nothing is left of `x`. -/
def scaleDown : (rounds : Nat) → Float → Nat → Float
  | 0, _, _ => 0
  | rounds + 1, x, n =>
      if n ≤ 308 then x / powerOfTen n else scaleDown rounds (x / powerOfTen 308) (n - 308)

/-- The double for `significand` times ten to the power `exponent`, with its
sign; nothing if it is too large. -/
def ofScaled? (negative : Bool) (significand : Nat) (exponent : Int) : Option Double :=
  let x := significand.toUInt64.toFloat
  let scaled : Option Float :=
    if exponent < 0 then some (scaleDown 4 x exponent.natAbs)
    else if significand = 0 then some x
    else if exponent ≤ 308 then
      let y := x * powerOfTen exponent.toNat
      if y.isInf then none else some y
    else none
  scaled.map fun y => ⟨(if negative then -y else y).toBits⟩

/-! ## Writing -/

/-- Whether the sign bit is set. -/
def isNegative (d : Double) : Bool := d.bits >>> 63 = 1

/-- The magnitude as `m * 2 ^ q`. -/
def magnitude (d : Double) : Nat × Int :=
  let exponent := ((d.bits >>> 52) &&& 0x7FF).toNat
  let fraction := (d.bits &&& 0xFFFFFFFFFFFFF).toNat
  if exponent = 0 then (fraction, -1074) else (fraction + 0x10000000000000, (exponent : Int) - 1075)

/-- A non-negative rational number. -/
structure Ratio where
  num : Nat
  den : Nat

/-- `a ≤ b`, by cross multiplication. -/
def Ratio.le (a b : Ratio) : Bool := a.num * b.den ≤ b.num * a.den

/-- `n * base ^ e`. -/
def Ratio.scaled (n base : Nat) (e : Int) : Ratio :=
  if e < 0 then ⟨n, Nat.pow base e.natAbs⟩ else ⟨n * Nat.pow base e.toNat, 1⟩

/-- The distance of two numbers. -/
def Ratio.distance (a b : Ratio) : Ratio :=
  let x := a.num * b.den
  let y := b.num * a.den
  ⟨x - y + (y - x), a.den * b.den⟩

/-- The exponent `p` with `10 ^ p ≤ r < 10 ^ (p + 1)`, looked for upwards from
`start` in at most `bound` steps. -/
def Ratio.decade (r : Ratio) : (bound : Nat) → (start : Int) → Int
  | 0, start => start
  | bound + 1, start =>
      if (Ratio.scaled 1 10 (start + 1)).le r then r.decade bound (start + 1) else start

/-- The multiple of `10 ^ grid` next to `value` among those between `low` and
`high`, the ends counted in if `closed`. Of two that are equally near it is the
even one. -/
def onGrid? (value low high : Ratio) (closed : Bool) (grid : Int) : Option Nat :=
  let unit := Ratio.scaled 1 10 grid
  let below := value.num * unit.den / (value.den * unit.num)
  let inside (n : Nat) : Bool :=
    let point : Ratio := ⟨n * unit.num, unit.den⟩
    if closed then low.le point && point.le high
    else !point.le low && !high.le point
  let gap (n : Nat) : Ratio := Ratio.distance ⟨n * unit.num, unit.den⟩ value
  let isNearer (n other : Nat) : Bool := !(gap other).le (gap n)
  match inside below, inside (below + 1) with
  | true, true =>
      some (if isNearer below (below + 1) then below
        else if isNearer (below + 1) below then below + 1
        else below + below % 2)
  | true, false => some below
  | false, true => some (below + 1)
  | false, false => none

/-- The fewest digits that stand for `d` and the power of ten of the last. -/
def shortest (d : Double) : Nat × Int :=
  let (m, q) := d.magnitude
  let value := Ratio.scaled (4 * m) 2 (q - 2)
  let narrow := m = 0x10000000000000 ∧ q ≠ -1074
  let low := Ratio.scaled (4 * m - if narrow then 1 else 2) 2 (q - 2)
  let high := Ratio.scaled (4 * m + 2) 2 (q - 2)
  let decade := value.decade 640 (-325)
  let rec go : (bound : Nat) → (grid : Int) → Nat × Int
    | 0, grid => (0, grid)
    | bound + 1, grid =>
        match onGrid? value low high (m % 2 = 0) grid with
        | some n => if n % 10 = 0 then (n / 10, grid + 1) else (n, grid)
        | none => go bound (grid - 1)
  go 18 decade

/-- The digits with a point `place` places after the first, or an exponent
where that is far from the digits. -/
def layout (digits : List Char) (place : Int) : List Char :=
  let count : Int := digits.length
  if 0 < place ∧ place ≤ 16 then
    if count ≤ place then
      digits ++ List.replicate (place - count).toNat '0' ++ ['.', '0']
    else digits.take place.toNat ++ '.' :: digits.drop place.toNat
  else if -5 < place ∧ place ≤ 0 then
    '0' :: '.' :: (List.replicate place.natAbs '0' ++ digits)
  else
    let exponent := 'e' :: (if place - 1 < 0 then ['-'] else []) ++ Nat.toDigits 10 (place - 1).natAbs
    match digits with
    | [d] => d :: exponent
    | d :: rest => d :: '.' :: rest ++ exponent
    | [] => exponent

/-- The shortest text that stands for `d`. -/
def write (d : Double) : List Char :=
  let sign := if d.isNegative then ['-'] else []
  if d.magnitude.1 = 0 then sign ++ ['0', '.', '0']
  else
    let (n, grid) := d.shortest
    let digits := Nat.toDigits 10 n
    sign ++ layout digits (digits.length + grid)

end Double

end Editorial
