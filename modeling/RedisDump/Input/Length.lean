import RedisDump.Bytes.Word
import RedisDump.Input

/-!
# Lengths

A length starts with a byte whose two top bits tell its form: the six low bits alone, the six
low bits followed by a byte, or a number of four (`0x80`) or eight (`0x81`) bytes with the most
significant one first. The fourth pattern announces a string in a special encoding and is no
length.
-/

namespace RedisDump.Read

/-- The first byte of a length of four bytes. -/
def length32 : UInt8 := 0x80

/-- The first byte of a length of eight bytes. -/
def length64 : UInt8 := 0x81

/-- A number of `n` bytes with the most significant one first. -/
def bigEndian (n : Nat) : Read Nat :=
  return (← bytes n).beNat

/-- A number of `n` bytes with the least significant one first. -/
def littleEndian (n : Nat) : Read Nat :=
  return (← bytes n).leNat

/-- The length in bytes of its own that `b` announces. -/
def wideLength (b : UInt8) : Read Nat :=
  if b = length32 then bigEndian 4
  else if b = length64 then bigEndian 8
  else throw (.format (.unknownLengthForm b))

/-- The length whose first byte is `b`. -/
def lengthFrom (b : UInt8) : Read Nat :=
  match b.toNat / 64 with
  | 0 => return b.toNat
  | 1 => return b.toNat % 64 * 256 + (← byte).toNat
  | 2 => wideLength b
  | _ => throw (.format .notALength)

/-- A length. -/
def length : Read Nat := do
  lengthFrom (← byte)

theorem bigEndian_steady (n : Nat) : Steady Input.remaining (bigEndian n) :=
  (bytes_steady n).bind fun _ => Steady.pure _

theorem littleEndian_steady (n : Nat) : Steady Input.remaining (littleEndian n) :=
  (bytes_steady n).bind fun _ => Steady.pure _

theorem wideLength_steady (b : UInt8) : Steady Input.remaining (wideLength b) := by
  unfold wideLength
  split
  · exact bigEndian_steady 4
  · split
    · exact bigEndian_steady 8
    · exact (Eager.throw _).steady

theorem lengthFrom_steady (b : UInt8) : Steady Input.remaining (lengthFrom b) := by
  unfold lengthFrom
  split
  · exact Steady.pure _
  · exact byte_eager.steady.bind fun _ => Steady.pure _
  · exact wideLength_steady b
  · exact (Eager.throw _).steady

theorem length_eager : Eager Input.remaining length :=
  byte_eager.bind lengthFrom_steady

end RedisDump.Read
