import RedisDump.Binary64.Basic

/-!
# The shortest decimal of a double

Among the decimals that round to a double (to nearest, ties to the even mantissa) the one with
the fewest digits is chosen, and of two such the nearer to the exact value.

A positive double is `m * 2 ^ q`. The numbers that round to it form an interval around it, half
a unit wide on each side; below a power of two the neighbour is nearer and the interval is only
a quarter of a unit wide there. The ends belong to it exactly when `m` is even. For each power
of ten from the leading digit's downward, the multiples of it next to the value are tried; the
first grid with a multiple inside the interval gives the digits. The search ends at the latest
on the grid on which the value itself lies.
-/

namespace RedisDump.Binary64

/-- A decimal `digits * 10 ^ exponent`. -/
structure Decimal where
  /-- The digits, read as one number. -/
  digits : Nat
  /-- The power of ten of the last digit. -/
  exponent : Int
  deriving DecidableEq, Repr

/-- The comparison of a double with the multiples of a power of ten, in whole numbers: all four
are in the same unit. -/
structure Grid where
  /-- The distance of two neighbouring multiples. -/
  step : Nat
  /-- The exact value. -/
  value : Nat
  /-- The lower end of the interval that rounds to the value. -/
  low : Nat
  /-- The upper end of that interval. -/
  high : Nat

namespace Grid

/-- The multiples of `10 ^ p` beside `m * 2 ^ q`, in units of a quarter of `2 ^ q` or smaller. -/
def of (m : Nat) (q p : Int) : Grid :=
  let unit := q - 2
  let scale := 2 ^ unit.toNat * 10 ^ (-p).toNat
  let below := if m = leadingBit ∧ minExponent < q then 1 else 2
  { step := 10 ^ p.toNat * 2 ^ (-unit).toNat
    value := 4 * m * scale
    low := (4 * m - below) * scale
    high := (4 * m + 2) * scale }

/-- Whether the `n`-th multiple rounds to the value; `closed` tells whether the ends of the
interval do. -/
def holds (g : Grid) (closed : Bool) (n : Nat) : Bool :=
  let x := n * g.step
  if closed then g.low ≤ x && x ≤ g.high else g.low < x && x < g.high

/-- The multiple that stands for the value on this grid, if one of the two around it rounds to
it. Of two that do, the nearer is taken, and of two equally near ones the even. -/
def choose? (g : Grid) (closed : Bool) : Option Nat :=
  let n := g.value / g.step
  match g.holds closed n, g.holds closed (n + 1) with
  | true, true =>
    let middle := (2 * n + 1) * g.step
    if 2 * g.value < middle then some n
    else if middle < 2 * g.value then some (n + 1)
    else if n % 2 = 0 then some n else some (n + 1)
  | true, false => some n
  | false, true => some (n + 1)
  | false, false => none

end Grid

/-- The number of digits before the decimal point of `m * 2 ^ q`; zero or less when the number
is below one, by the number of zeros that follow the point. -/
def leadingPlace (m : Nat) (q : Int) : Int :=
  (Nat.toDigits 10 (m * 2 ^ q.toNat * 5 ^ (-q).toNat)).length + min q 0

/-- The first grid from `10 ^ p` downward on which the double has a decimal, going down at most
`levels` powers of ten; on the last one the value is exact. -/
def search (m : Nat) (q : Int) : (levels : Nat) → (p : Int) → Decimal
  | 0, p => { digits := (Grid.of m q p).value / (Grid.of m q p).step, exponent := p }
  | levels + 1, p =>
    match (Grid.of m q p).choose? (m % 2 == 0) with
    | some n => { digits := n, exponent := p }
    | none => search m q levels (p - 1)

/-- The decimal without zeros at its end, for positive digits fewer than `10 ^ fuel`. -/
def stripZeros : (fuel : Nat) → Decimal → Decimal
  | 0, d => d
  | fuel + 1, d =>
    if d.digits % 10 = 0 then
      stripZeros fuel { digits := d.digits / 10, exponent := d.exponent + 1 }
    else d

/-- The shortest decimal that rounds to `m * 2 ^ q`, for positive `m`. -/
def shortest (m : Nat) (q : Int) : Decimal :=
  let top := leadingPlace m q - 1
  let found := search m q (top - min q 0).toNat top
  stripZeros (Nat.toDigits 10 found.digits).length found

end RedisDump.Binary64
