import RedisDump.Packed.Scan

/-!
# Scanning step by step

The operations on a packed container as data, so that a sequence of them can be run one by one:
each step answers with a value or an error and leaves its place for the next.
-/

namespace RedisDump.Scanner

/-- The order of the bytes of an integer. -/
inductive ByteOrder where
  | leastFirst
  | mostFirst
  deriving DecidableEq, Repr

/-- The unsigned integer in the given bytes. -/
def ByteOrder.value : ByteOrder → Bytes → Nat
  | .leastFirst, bs => bs.leNat
  | .mostFirst, bs => bs.beNat

/-- The unsigned integers of the given widths that stand one after the other. -/
def ByteOrder.fields (order : ByteOrder) : (widths : List Nat) → Bytes → List Nat
  | [], _ => []
  | width :: widths, bs => order.value (bs.take width) :: order.fields widths (bs.drop width)

/-- An operation on a packed container. -/
inductive Step where
  /-- The next byte. -/
  | byte
  /-- The next byte, which stays where it is. -/
  | peek
  /-- A number of bytes, which may be negative. -/
  | take (n : Int)
  /-- Passing over a number of bytes, which may be negative. -/
  | skip (n : Int)
  /-- Unsigned integers of the given widths, all or none. -/
  | fields (order : ByteOrder) (widths : List Nat)
  /-- An integer of the given width, least significant byte first. -/
  | integer (width : Int) (signed : Bool)
  /-- A complaint about something wrong at this place. -/
  | complain (flaw : String)
  deriving DecidableEq, Repr

/-- The value that a step returns. -/
inductive Answer where
  | nothing
  | integer (n : Int)
  | integers (ns : List Nat)
  | bytes (bs : Bytes)
  deriving DecidableEq, Repr

/-- The integers of a step; a single one is answered as a number and not as a list. -/
def Answer.ofFields : List Nat → Answer
  | [n] => .integer n
  | ns => .integers ns

/-- The computation of a step. -/
def Step.run : Step → Scan Answer
  | .byte => return .integer (← Scan.byte).toNat
  | .peek => return .integer (← Scan.peek).toNat
  | .take n => return .bytes (← Scan.request n)
  | .skip n => do
    let _ ← Scan.request n
    return .nothing
  | .fields order widths => return .ofFields (order.fields widths (← Scan.request widths.sum))
  | .integer width true => return .integer (← Scan.request width).leInt
  | .integer width false => return .integer (← Scan.request width).leNat
  | .complain flaw => Scan.fail flaw

/-- Runs a step. -/
def step (op : Step) (s : Scanner) : Except PackedError Answer × Scanner :=
  match op.run s with
  | .ok a s => (.ok a, s)
  | .error e s => (.error e, s)

end RedisDump.Scanner
