import RedisDump.Profile

/-!
# The header of a snapshot

A snapshot starts with five fixed letters and its format version in four decimal digits.
-/

namespace RedisDump.Read

/-- The letters at the start of every snapshot. -/
def fixedLetters : Bytes := Bytes.ofAscii "REDIS"

/-- The number of digits of the version. -/
def versionWidth : Nat := 4

/-- The fixed letters. -/
def signature : Read Unit := do
  if (← bytes fixedLetters.length) = fixedLetters then return ()
  else throw (.format .notASnapshot)

/-- A version field. -/
def versionField : Read Nat := do
  let field ← bytes versionWidth
  if field.all Bytes.isDigit then return field.digitsValue
  else throw (.format (.badVersionField field))

/-- The header of a snapshot, whose version the profile has to accept. -/
def header (p : Profile) : Read Nat := do
  signature
  let version ← versionField
  if p.minVersion ≤ version ∧ version ≤ p.maxVersion then return version
  else throw (.format (.unknownVersion version))

theorem signature_steady : Steady Input.remaining signature := by
  refine (bytes_steady _).bind fun _ => ?_
  split
  · exact Steady.pure _
  · exact (Eager.throw _).steady

theorem versionField_steady : Steady Input.remaining versionField := by
  refine (bytes_steady _).bind fun _ => ?_
  split
  · exact Steady.pure _
  · exact (Eager.throw _).steady

theorem header_steady (p : Profile) : Steady Input.remaining (header p) := by
  refine signature_steady.bind fun _ => versionField_steady.bind fun _ => ?_
  split
  · exact Steady.pure _
  · exact (Eager.throw _).steady

end RedisDump.Read
