import RedisDump.Packed.Scan

/-!
# Ziplists

A ziplist is eight bytes of sizes, a count of two bytes and its entries, followed by the end
mark. An entry starts with the length of the one before it: one byte, or, when that byte is
above the cutoff, that byte and four more. The next byte tells the form of the element by its
two top bits: a string with a length of six bits, of fourteen bits or of four bytes, or an
integer, whose width or value the other bits give. A count of `0xFFFF` means that the entries
have to be walked up to the end mark; with any other count the end mark is not looked at.
-/

namespace RedisDump.Ziplist

open Scan

/-- The number of bytes before the count. -/
def leadingBytes : Nat := 8

/-- The count that stands for an unknown number of entries. -/
def uncounted : Nat := 0xFFFF

/-- The greatest byte that is a whole previous length when nothing else is said. -/
def defaultCutoff : Int := 0xFD

/-- Passes over the length of the previous entry. -/
def previousLength (cutoff : Int) : Scan Unit := do
  let b ← byte
  if cutoff < b.toNat then skip 4 else return ()

/-- The width of the integer that an encoding byte announces. -/
def integerWidth? (encoding : UInt8) : Option Nat :=
  match encoding.toNat with
  | 0xC0 => some 2
  | 0xD0 => some 4
  | 0xE0 => some 8
  | 0xF0 => some 3
  | 0xFE => some 1
  | _ => none

/-- The integer that an encoding byte from `0xF1` to `0xFD` holds itself, from 0 to 12. -/
def immediate? (encoding : UInt8) : Option Nat :=
  if 0xF1 ≤ encoding ∧ encoding ≤ 0xFD then some (encoding.toNat % 16 - 1) else none

/-- The element that an encoding byte from `0xC0` up announces. -/
def integer (encoding : UInt8) : Scan Int :=
  match integerWidth? encoding with
  | some width => signed width
  | none =>
    match immediate? encoding with
    | some n => return n
    | none => fail ("unknown entry encoding " ++ hexByte encoding)

/-- The element that an encoding byte announces. -/
def element (encoding : UInt8) : Scan Bytes :=
  match encoding.toNat / 64 with
  | 0 => take encoding.toNat
  | 1 => do take (encoding.toNat % 64 * 256 + (← byte).toNat)
  | 2 => do take (← bigEndian 4)
  | _ => return Bytes.decimal (← integer encoding)

/-- An entry. -/
def entry (cutoff : Int) : Scan Bytes := do
  previousLength cutoff
  element (← byte)

theorem previousLength_eager (cutoff : Int) :
    Eager Scanner.remaining (previousLength cutoff) := by
  refine byte_eager.bind fun b => ?_
  split
  · exact skip_steady 4
  · exact Steady.pure _

theorem integer_steady (encoding : UInt8) : Steady Scanner.remaining (integer encoding) := by
  unfold integer
  split
  · exact signed_steady _
  · split
    · exact Steady.pure _
    · exact (fail_eager _).steady

theorem element_steady (encoding : UInt8) : Steady Scanner.remaining (element encoding) := by
  unfold element
  split
  · exact take_steady _
  · exact byte_eager.steady.bind fun _ => take_steady _
  · exact (bigEndian_steady 4).bind fun _ => take_steady _
  · exact (integer_steady encoding).bind fun _ => Steady.pure _

theorem entry_eager (cutoff : Int) : Eager Scanner.remaining (entry cutoff) :=
  (previousLength_eager cutoff).bind fun _ =>
    byte_eager.steady.bind fun _ => element_steady _

/-- The elements of a ziplist. -/
def elements (cutoff : Int) : Scan (List Bytes) := do
  skip leadingBytes
  let count ← littleEndian 2
  if count < uncounted then collect (fun _ => entry cutoff) count
  else untilEnd (entry cutoff) (entry_eager cutoff)

/-- The elements of the ziplist with the given bytes, in stored order. -/
def decode (cutoff : Int) (data : Bytes) : Except PackedError (List Bytes) :=
  Scan.decode "ziplist" (elements cutoff) data

end RedisDump.Ziplist
