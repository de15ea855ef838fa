import RedisDump.Bytes.Word

/-!
# Binary doubles

A score of a sorted set is stored as the 64 bits of an IEEE 754 double. The bits are one sign
bit, eleven bits of exponent and 52 bits of fraction; here they are read as an exact number
`mantissa * 2 ^ exponent`, an infinity or a value that is not a number.
-/

namespace RedisDump

/-- What the 64 bits of a double stand for. -/
inductive Binary64 where
  /-- Not a number, whatever its sign and payload. -/
  | nan
  /-- One of the two infinities. -/
  | infinity (negative : Bool)
  /-- The number `mantissa * 2 ^ exponent`, with a minus sign in front when `negative`; the
  two zeros differ in their sign. -/
  | finite (negative : Bool) (mantissa : Nat) (exponent : Int)
  deriving DecidableEq, Repr

namespace Binary64

/-- The weight of the lowest mantissa bit of the smallest doubles. -/
def minExponent : Int := -1074

/-- The mantissa from which on a double has its implicit leading bit. -/
def leadingBit : Nat := 2 ^ 52

/-- The double with the given 64-bit pattern. -/
def ofBits (bits : Nat) : Binary64 :=
  let negative := bits / 2 ^ 63 % 2 == 1
  let biased := bits / 2 ^ 52 % 2 ^ 11
  let fraction := bits % 2 ^ 52
  if biased = 2047 then
    if fraction = 0 then .infinity negative else .nan
  else if biased = 0 then .finite negative fraction minExponent
  else .finite negative (leadingBit + fraction) (minExponent + ((biased - 1 : Nat) : Int))

/-- The double stored in eight bytes with the least significant one first. -/
def ofBytes (bs : Bytes) : Binary64 :=
  ofBits bs.leNat

end Binary64

end RedisDump
