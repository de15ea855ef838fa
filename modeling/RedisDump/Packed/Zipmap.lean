import RedisDump.Packed.Scan

/-!
# Zipmaps

A zipmap is one byte of count and its pairs, followed by the end mark. A pair is the length of
the key, the key, the length of the value, the number of unused bytes after the value, the value
and those bytes. A length is one byte below 253, or 253 and four bytes with the most significant
one first. The count is not reliable, so the pairs are always walked up to the end mark.
-/

namespace RedisDump.Zipmap

open Scan

/-- The length byte that announces a length of four bytes. -/
def longLength : Nat := 253

/-- A length. -/
def length : Scan Nat := do
  let b := (← byte).toNat
  if b < longLength then return b
  else if b = longLength then bigEndian 4
  else fail s!"invalid length byte {b}"

/-- A key. -/
def key : Scan Bytes := do
  take (← length)

/-- A value, with the unused bytes behind it. -/
def value : Scan Bytes := do
  let size ← length
  let unused ← byte
  let bs ← take size
  skip unused.toNat
  return bs

/-- A key and its value. -/
def pair : Scan (Bytes × Bytes) := do
  let k ← key
  let v ← value
  return (k, v)

theorem length_eager : Eager Scanner.remaining length := by
  refine byte_eager.bind fun b => ?_
  dsimp only
  split
  · exact Steady.pure _
  · split
    · exact bigEndian_steady 4
    · exact (fail_eager _).steady

theorem key_eager : Eager Scanner.remaining key :=
  length_eager.bind fun _ => take_steady _

theorem value_eager : Eager Scanner.remaining value :=
  length_eager.bind fun _ => byte_eager.steady.bind fun _ => (take_steady _).bind fun _ =>
    (skip_steady _).bind fun _ => Steady.pure _

theorem pair_eager : Eager Scanner.remaining pair :=
  key_eager.bind fun _ => value_eager.steady.bind fun _ => Steady.pure _

/-- The pairs of a zipmap. -/
def pairs : Scan (List (Bytes × Bytes)) := do
  let _ ← byte
  untilEnd pair pair_eager

/-- The keys and values, in turn, of the zipmap with the given bytes. -/
def decode (data : Bytes) : Except PackedError (List Bytes) :=
  (Scan.decode "zipmap" pairs data).map Bytes.flattenPairs

end RedisDump.Zipmap
