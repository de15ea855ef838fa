import RedisDump.Binary64.Shortest

/-!
# The text of a double

A double is written with its shortest digits. With the first digit at the place `10 ^ e` the
notation is positional for `-4 ≤ e < 16`, always with a point and at least one digit after it;
otherwise the point follows the first digit and the exponent is written with its sign and at
least two digits.
-/

namespace RedisDump.Binary64

/-- The least place of the first digit that is written positionally. -/
def leastPositional : Int := -4

/-- The least place of the first digit that is too great for positional notation. -/
def greatestPositional : Int := 16

/-- The decimal point. -/
def point : UInt8 := 0x2E

/-- A number of zero digits. -/
def zeros (n : Nat) : Bytes :=
  List.replicate n 0x30

/-- The digits with their first one at the place `10 ^ e`, written out to the units or to the
last digit. -/
def positional (digits : Bytes) (e : Int) : Bytes :=
  if e < 0 then
    0x30 :: point :: (zeros (-e - 1).toNat ++ digits)
  else
    let whole := e.toNat + 1
    let fraction := digits.drop whole
    digits.take whole ++ zeros (whole - digits.length) ++
      point :: (if fraction.isEmpty then zeros 1 else fraction)

/-- The digits with a point after the first one, and the power of ten of that one. -/
def scientific (digits : Bytes) (e : Int) : Bytes :=
  let fraction := digits.drop 1
  let exponentDigits := Bytes.decimalNat e.natAbs
  digits.take 1 ++ (if fraction.isEmpty then [] else point :: fraction) ++
    0x65 :: (if e < 0 then 0x2D else 0x2B) ::
      (zeros (2 - exponentDigits.length) ++ exponentDigits)

/-- The text of a decimal. -/
def Decimal.text (d : Decimal) : Bytes :=
  let digits := Bytes.decimalNat d.digits
  let e := d.exponent + digits.length - 1
  if leastPositional ≤ e ∧ e < greatestPositional then positional digits e
  else scientific digits e

/-- The text of a finite double without its sign. -/
def magnitudeText (m : Nat) (q : Int) : Bytes :=
  if m = 0 then positional (zeros 1) 0 else (shortest m q).text

/-- A text with a minus sign in front when `negative`. -/
def signed (negative : Bool) (text : Bytes) : Bytes :=
  if negative then 0x2D :: text else text

/-- The text of a double. Every value that is not a number has the same one. -/
def text : Binary64 → Bytes
  | .nan => Bytes.ofAscii "nan"
  | .infinity negative => signed negative (Bytes.ofAscii "inf")
  | .finite negative m q => signed negative (magnitudeText m q)

end RedisDump.Binary64
