import RedisDump.Packed.Scan

/-!
# Listpacks

A listpack is four bytes of size, a count of two bytes and its elements, followed by the end
mark. The first byte of an element tells its form: an integer of 7 or 13 bits, or of 16, 24, 32
or 64 bits in the bytes after it, or a string with a length of 6 or 12 bits or of four bytes.
After the element stands its own size, in as few bytes of seven bits as hold it, so that the
listpack can be walked backwards; a walk forwards only passes over it. A count of `0xFFFF` means
that the elements have to be walked up to the end mark, which has to be there in any case.
-/

namespace RedisDump.Listpack

open Scan

/-- The number of bytes before the count. -/
def leadingBytes : Nat := 4

/-- The count that stands for an unknown number of elements. -/
def uncounted : Nat := 0xFFFF

/-- The number of bytes that hold the size of an element of `length` bytes. -/
def backlenWidth (length : Int) : Nat :=
  if length ≤ 127 then 1
  else if length < 16383 then 2
  else if length < 2097151 then 3
  else if length < 268435455 then 4
  else 5

/-- A string of `length` bytes whose form took `header` bytes, and the size behind it. -/
def stringBody (header length : Nat) : Scan Bytes := do
  let value ← take length
  skip (backlenWidth (header + length : Nat))
  return value

/-- An integer of `bits` bits with the unsigned pattern `raw`, and the size behind it. -/
def integerBody (bits raw : Nat) : Scan Bytes := do
  skip 1
  return Bytes.decimal (Bytes.twosComplement bits raw)

/-- The width in bytes of the integer that a first byte announces. -/
def integerWidth? (b : UInt8) : Option Nat :=
  match b.toNat with
  | 0xF1 => some 2
  | 0xF2 => some 3
  | 0xF3 => some 4
  | 0xF4 => some 8
  | _ => none

/-- The element that a first byte from `0xF0` up announces. -/
def wideElement (b : UInt8) : Scan Bytes := do
  if b = 0xF0 then stringBody 5 (← littleEndian 4)
  else
    match integerWidth? b with
    | some width => integerBody (8 * width) (← littleEndian width)
    | none => fail ("unknown element encoding " ++ hexByte b)

/-- The element that a first byte announces. -/
def elementFrom (b : UInt8) : Scan Bytes := do
  let n := b.toNat
  if n < 0x80 then
    skip 1
    return Bytes.decimalNat n
  else if n < 0xC0 then stringBody 1 (n % 64)
  else if n < 0xE0 then integerBody 13 (n % 32 * 256 + (← byte).toNat)
  else if n < 0xF0 then stringBody 2 (n % 16 * 256 + (← byte).toNat)
  else wideElement b

/-- An element. -/
def element : Scan Bytes := do
  elementFrom (← byte)

/-- Passes over the end mark. -/
def finish : Scan Unit := do
  if (← byte) = endMark then return ()
  else fail "listpack did not end with 0xff byte"

theorem stringBody_steady (header length : Nat) :
    Steady Scanner.remaining (stringBody header length) :=
  (take_steady _).bind fun _ => (skip_steady _).bind fun _ => Steady.pure _

theorem integerBody_steady (bits raw : Nat) :
    Steady Scanner.remaining (integerBody bits raw) :=
  (skip_steady _).bind fun _ => Steady.pure _

theorem wideElement_steady (b : UInt8) : Steady Scanner.remaining (wideElement b) := by
  unfold wideElement
  split
  · exact (littleEndian_steady 4).bind fun _ => stringBody_steady _ _
  · split
    · exact (littleEndian_steady _).bind fun _ => integerBody_steady _ _
    · exact (fail_eager _).steady

theorem elementFrom_steady (b : UInt8) : Steady Scanner.remaining (elementFrom b) := by
  unfold elementFrom
  dsimp only
  split
  · exact (skip_steady 1).bind fun _ => Steady.pure _
  · split
    · exact stringBody_steady _ _
    · split
      · exact byte_eager.steady.bind fun _ => integerBody_steady _ _
      · split
        · exact byte_eager.steady.bind fun _ => stringBody_steady _ _
        · exact wideElement_steady b

theorem element_eager : Eager Scanner.remaining element :=
  byte_eager.bind elementFrom_steady

/-- The elements of a listpack, by its count or up to the end mark. -/
def body : Scan (List Bytes) := do
  skip leadingBytes
  let count ← littleEndian 2
  if count < uncounted then collect (fun _ => element) count
  else untilEnd element element_eager

/-- The elements of a listpack, with its end mark. -/
def elements : Scan (List Bytes) := do
  let values ← body
  finish
  return values

/-- The elements of the listpack with the given bytes, in stored order. -/
def decode (data : Bytes) : Except PackedError (List Bytes) :=
  Scan.decode "listpack" elements data

end RedisDump.Listpack
