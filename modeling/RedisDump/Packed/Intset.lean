import RedisDump.Packed.Scan

/-!
# Intsets

An intset is a width of two, four or eight in four bytes, a count in four bytes, and so many
signed integers of that width. All numbers have their least significant byte first.
-/

namespace RedisDump.Intset

open Scan

/-- The widths that an integer can have, in bytes. -/
def widths : List Nat := [2, 4, 8]

/-- The decimal text of an integer of the given width. -/
def member (width : Nat) : Scan Bytes :=
  return Bytes.decimal (← signed width)

/-- The decimal texts of the members of an intset. -/
def elements : Scan (List Bytes) := do
  let width ← littleEndian 4
  let count ← littleEndian 4
  if width ∈ widths then collect (fun _ => member width) count
  else fail s!"unknown intset encoding {width}"

/-- The decimal texts of the members of the intset with the given bytes, in stored order. -/
def decode (data : Bytes) : Except PackedError (List Bytes) :=
  Scan.decode "intset" elements data

end RedisDump.Intset
