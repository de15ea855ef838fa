import RedisDump.Opcode
import RedisDump.ValueKind

/-!
# The meaning of a record's first byte

A record starts with an opcode or with the byte of a kind of value. The table of both answers,
for any byte, what it stands for and since which format version.
-/

namespace RedisDump

/-- What is known about a byte that starts a record. -/
structure ByteMeaning where
  /-- The name of the opcode. -/
  opcode? : Option String := none
  /-- The name of the kind of value. -/
  kind? : Option String := none
  /-- The format version in which the byte first appeared. -/
  since? : Option Nat := none
  /-- What a refused kind of value belongs to. -/
  refused? : Option String := none
  deriving DecidableEq, Repr

namespace ByteMeaning

/-- What a byte stands for at the start of a record. -/
def ofByte (b : UInt8) : ByteMeaning :=
  match Opcode.ofByte? b with
  | some op => { opcode? := some op.label, since? := some op.since }
  | none =>
    match ValueCode.ofByte? b with
    | some code =>
      { kind? := some code.wireName, since? := some code.since, refused? := code.refusedFeature? }
    | none => {}

/-- What a number stands for at the start of a record; one that is no byte stands for nothing. -/
def ofInt (n : Int) : ByteMeaning :=
  if 0 ≤ n ∧ n < 256 then ofByte (UInt8.ofNat n.toNat) else {}

end ByteMeaning

end RedisDump
