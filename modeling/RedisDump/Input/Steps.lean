import RedisDump.Input.Text

/-!
# Reading step by step

The operations on an input as data, so that a sequence of them can be run one by one: each step
answers with a value or an error and leaves the input for the next.
-/

namespace RedisDump.Input

/-- An operation on an input. -/
inductive Step where
  /-- One byte. -/
  | byte
  /-- A number of bytes, which may be negative. -/
  | bytes (n : Int)
  /-- A length. -/
  | length
  /-- A string of at most the given number of bytes. -/
  | text (limit : Int)
  /-- A compressed string without the byte that announces it. -/
  | compressed (limit : Int)
  /-- A score in the form of a text. -/
  | scoreText
  /-- A score in the form of a binary double. -/
  | scoreBinary
  /-- An unsigned integer of the given number of bytes, least significant byte first. -/
  | littleEndian (width : Nat)
  /-- Closing the input. -/
  | close
  deriving DecidableEq, Repr

/-- The value that a step returns. -/
inductive Answer where
  | nothing
  | number (n : Nat)
  | bytes (bs : Bytes)
  deriving DecidableEq, Repr

/-- The computation of a step. -/
def Step.run : Step → Read Answer
  | .byte => return .number (← Read.byte).toNat
  | .bytes n => return .bytes (← Read.request n)
  | .length => return .number (← Read.length)
  | .text limit => return .bytes (← Read.text limit)
  | .compressed limit => return .bytes (← Read.compressedText limit)
  | .scoreText => return .bytes (← Read.scoreText)
  | .scoreBinary => return .bytes (← Read.scoreBinary)
  | .littleEndian width => return .number (← Read.littleEndian width)
  | .close => fun i => .ok .nothing i.close

/-- Runs a step. -/
def step (s : Step) (i : Input) : Except ReadError Answer × Input :=
  match s.run i with
  | .ok a i => (.ok a, i)
  | .error e i => (.error e, i)

end RedisDump.Input
