import RedisDump.Bytes

/-!
# Numbers in bytes

Fixed-width integers are stored with their least significant byte first (`leNat`, `leInt`) or
last (`beNat`). A signed number of any number of bits is also read off its unsigned pattern
(`twosComplement`), which serves the widths that are not a whole number of bytes.
-/

namespace RedisDump.Bytes

/-- The unsigned number stored with its least significant byte first. -/
def leNat : Bytes → Nat
  | [] => 0
  | b :: bs => b.toNat + 256 * leNat bs

/-- The unsigned number stored with its most significant byte first. -/
def beNat (bs : Bytes) : Nat :=
  bs.foldl (fun n b => 256 * n + b.toNat) 0

/-- A byte as a signed number from -128 to 127. -/
def signedByte (b : UInt8) : Int :=
  if b.toNat < 128 then b.toNat else (b.toNat : Int) - 256

/-- The signed number stored with its least significant byte first: the last byte carries the
sign, and no bytes stand for zero. -/
def leInt : Bytes → Int
  | [] => 0
  | [b] => signedByte b
  | b :: c :: bs => b.toNat + 256 * leInt (c :: bs)

/-- The signed number whose two's-complement pattern of `bits` bits is `raw`. -/
def twosComplement (bits raw : Nat) : Int :=
  if 2 ^ (bits - 1) ≤ raw then (raw : Int) - 2 ^ bits else raw

theorem leNat_lt (bs : Bytes) : bs.leNat < 256 ^ bs.length := by
  induction bs with
  | nil => simp [leNat]
  | cons b bs ih =>
    have hb : b.toNat < 256 := b.toNat_lt
    simp only [leNat, List.length_cons, Nat.pow_succ]
    omega

end RedisDump.Bytes
