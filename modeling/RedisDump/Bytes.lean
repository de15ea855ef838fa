import RedisDump.Arithmetic

/-!
# Byte strings

Snapshots, keys, values and scores are byte strings. This module holds the type, the
canonical decimal text in which every integer element is handed out, and the lower-case
form that makes the spelling of a special score independent of letter case.
-/

namespace RedisDump

/-- A byte string. -/
abbrev Bytes := List UInt8

namespace Bytes

/-- The bytes of an ASCII text, one byte per character. -/
def ofAscii (text : String) : Bytes :=
  text.toList.map Char.toUInt8

/-- The decimal digits of a natural number, without leading zeros. -/
def decimalNat (n : Nat) : Bytes :=
  (Nat.toDigits 10 n).map Char.toUInt8

/-- The canonical decimal text of an integer: a minus sign for a negative number, then the
digits without leading zeros. -/
def decimal : Int → Bytes
  | .ofNat n => decimalNat n
  | .negSucc n => 0x2D :: decimalNat (n + 1)

/-- A byte with the ASCII capital letters mapped to small ones. -/
def lowerByte (b : UInt8) : UInt8 :=
  if 0x41 ≤ b ∧ b ≤ 0x5A then b + 0x20 else b

/-- A byte string with the ASCII capital letters mapped to small ones. -/
def lower (bs : Bytes) : Bytes :=
  bs.map lowerByte

@[simp] theorem length_lower (bs : Bytes) : bs.lower.length = bs.length := by
  simp [lower]

/-- A capital letter becomes the small one, thirty-two places further on, and every other byte
stays what it is. -/
theorem toNat_lowerByte (b : UInt8) : (lowerByte b).toNat =
    if 0x41 ≤ b.toNat ∧ b.toNat ≤ 0x5A then b.toNat + 0x20 else b.toNat := by
  have hcapital : (0x41 ≤ b ∧ b ≤ 0x5A) ↔ 0x41 ≤ b.toNat ∧ b.toNat ≤ 0x5A := by
    simp only [UInt8.le_iff_toNat_le]
    rfl
  unfold lowerByte
  by_cases h : 0x41 ≤ b.toNat ∧ b.toNat ≤ 0x5A
  · rw [if_pos (hcapital.mpr h), if_pos h]
    exact Nat.mod_eq_of_lt (show b.toNat + 32 < 256 by omega)
  · rw [if_neg (mt hcapital.mp h), if_neg h]

/-- The byte of an ASCII character is lowered as the character is. -/
theorem lowerByte_toUInt8 {c : Char} (h : c.toNat < 128) :
    lowerByte c.toUInt8 = c.toLower.toUInt8 := by
  have hall : ∀ n < 128, lowerByte (Char.ofNat n).toUInt8 = (Char.ofNat n).toLower.toUInt8 := by
    decide
  have hc := hall c.toNat h
  rwa [Char.ofNat_toNat] at hc

theorem lower_ofAscii {text : String} (h : ∀ c ∈ text.toList, c.toNat < 128) :
    (ofAscii text).lower = ofAscii text.toLower := by
  have htext : text.toLower = text.map Char.toLower := rfl
  simp only [htext, ofAscii, lower, String.toList_map, List.map_map]
  exact List.map_congr_left fun c hc => lowerByte_toUInt8 (h c hc)

/-- An ASCII decimal digit. -/
def isDigit (b : UInt8) : Bool :=
  0x30 ≤ b && b ≤ 0x39

/-- The number that a string of decimal digits denotes. -/
def digitsValue (bs : Bytes) : Nat :=
  bs.foldl (fun n b => 10 * n + (b.toNat - 0x30)) 0

/-- A list of pairs as a flat list, in which the parts of each pair follow each other. -/
def flattenPairs (pairs : List (Bytes × Bytes)) : List Bytes :=
  pairs.flatMap fun p => [p.1, p.2]

end Bytes

end RedisDump
