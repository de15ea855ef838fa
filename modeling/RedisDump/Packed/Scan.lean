import RedisDump.Bytes.Word
import RedisDump.Collect
import RedisDump.Text.Quoted
import RedisDump.Text.Writable

/-!
# Scanning a packed container

A packed container is captured whole before it is decoded, so its decoder walks over bytes that
are all at hand. Every operation first checks that enough bytes are left; one that finds too few
fails and moves nowhere.
-/

namespace RedisDump

/-- Why a packed container cannot be decoded. -/
inductive PackedError where
  /-- The bytes end inside an element. -/
  | cutShort (container : String) (needed : Int) (offset size : Nat)
  /-- Something at an offset is not what it should be. -/
  | invalid (container : String) (offset : Nat) (flaw : String)
  /-- A node of a list is neither plain nor packed. -/
  | unknownNode (form : Int)
  /-- A number of bytes that are not left has too many digits for the complaint that is to name it.
  What is raised is the error of writing out the number, which is none of the format. -/
  | unwritable
  deriving DecidableEq, Repr

/-- The text of a decoding error. -/
def PackedError.message : PackedError → String
  | .cutShort container needed offset size =>
    s!"Truncated {container}: need {needed} bytes at offset {offset}, envelope is {size} bytes"
  | .invalid container offset flaw => s!"Invalid {container} at offset {offset}: {flaw}"
  | .unknownNode form => s!"Unknown quicklist node container {form}"
  | .unwritable => Text.tooManyDigits

/-- A place in a packed container. -/
structure Scanner where
  /-- The name of the container in messages. -/
  container : String
  /-- The number of bytes before the place. -/
  offset : Nat := 0
  /-- The bytes after the place. -/
  rest : Bytes
  deriving DecidableEq, Repr

namespace Scanner

/-- The start of a container. -/
def start (container : String) (data : Bytes) : Scanner :=
  { container := container, rest := data }

/-- The number of bytes that are left. -/
def remaining (s : Scanner) : Nat :=
  s.rest.length

/-- The error of an operation that needs `n` bytes at this place. -/
def cutShort (s : Scanner) (n : Int) : PackedError :=
  .cutShort s.container n s.offset (s.offset + s.rest.length)

/-- What is raised when `n` bytes are asked for at this place and not left. -/
def shortage (s : Scanner) (n : Int) : PackedError :=
  if Text.Writable n then s.cutShort n else .unwritable

/-- The error of something wrong at this place. -/
def invalid (s : Scanner) (flaw : String) : PackedError :=
  .invalid s.container s.offset flaw

end Scanner

/-- A computation that walks over a packed container. -/
abbrev Scan := EStateM PackedError Scanner

namespace Scan

/-- The next byte. -/
def byte : Scan UInt8 := fun s =>
  match s.rest with
  | [] => .error (s.cutShort 1) s
  | b :: rest => .ok b { s with offset := s.offset + 1, rest := rest }

/-- The next byte, which stays where it is. -/
def peek : Scan UInt8 := fun s =>
  match s.rest with
  | [] => .error (s.cutShort 1) s
  | b :: _ => .ok b s

/-- The next `n` bytes. -/
def take (n : Nat) : Scan Bytes := fun s =>
  let taken := s.rest.take n
  if taken.length < n then .error (s.cutShort n) s
  else .ok taken { s with offset := s.offset + n, rest := s.rest.drop n }

/-- The next `n` bytes, for any number; the operation fails for a negative one. A container names
no number that is too long to be written out, but whoever asks for bytes may. -/
def request (n : Int) : Scan Bytes := fun s =>
  if n < 0 ∨ s.rest.length < n then .error (s.shortage n) s else take n.toNat s

/-- Passes over `n` bytes. -/
def skip (n : Nat) : Scan Unit := do
  let _ ← take n

/-- The unsigned integer in the next `width` bytes, least significant byte first. -/
def littleEndian (width : Nat) : Scan Nat :=
  return (← take width).leNat

/-- The unsigned integer in the next `width` bytes, most significant byte first. -/
def bigEndian (width : Nat) : Scan Nat :=
  return (← take width).beNat

/-- The signed integer in the next `width` bytes, least significant byte first. -/
def signed (width : Nat) : Scan Int :=
  return (← take width).leInt

/-- Fails because of something wrong before this place. -/
def fail {α : Type} (flaw : String) : Scan α := fun s =>
  .error (s.invalid flaw) s

/-- A byte in messages. -/
def hexByte (b : UInt8) : String :=
  "0x" ++ String.ofList (Text.hexDigits 2 b.toNat)

theorem byte_eager : Eager Scanner.remaining byte := by
  intro s b s' h
  unfold byte at h
  split at h
  · cases h
  · rename_i hs
    cases h
    simp [Scanner.remaining, hs]

theorem take_steady (n : Nat) : Steady Scanner.remaining (take n) := by
  intro s b s' h
  unfold take at h
  dsimp only at h
  split at h
  · cases h
  · cases h
    simp [Scanner.remaining]

theorem skip_steady (n : Nat) : Steady Scanner.remaining (skip n) :=
  (take_steady n).bind fun _ => Steady.pure _

theorem littleEndian_steady (width : Nat) : Steady Scanner.remaining (littleEndian width) :=
  (take_steady width).bind fun _ => Steady.pure _

theorem bigEndian_steady (width : Nat) : Steady Scanner.remaining (bigEndian width) :=
  (take_steady width).bind fun _ => Steady.pure _

theorem signed_steady (width : Nat) : Steady Scanner.remaining (signed width) :=
  (take_steady width).bind fun _ => Steady.pure _

theorem fail_eager {α : Type} (flaw : String) :
    Eager Scanner.remaining (fail flaw : Scan α) := by
  intro s a s' h
  cases h

/-- The byte that ends a container. -/
def endMark : UInt8 := 0xFF

/-- Reads elements up to the end mark, which stays where it is, and puts them behind those in
`done`, which is in reverse order. -/
def untilEndInto {α : Type} (item : Scan α) (eager : Eager Scanner.remaining item)
    (done : List α) : Scan (List α) := fun s =>
  match peek s with
  | .error e s => .error e s
  | .ok b _ =>
    if b = endMark then .ok done.reverse s
    else
      match _h : item s with
      | .error e s => .error e s
      | .ok a s' => untilEndInto item eager (a :: done) s'
termination_by s => s.remaining
decreasing_by exact eager _ _ _ _h

/-- The elements up to the end mark, which stays where it is. -/
def untilEnd {α : Type} (item : Scan α) (eager : Eager Scanner.remaining item) :
    Scan (List α) :=
  untilEndInto item eager []

/-- The answer of a computation on a whole container. -/
def decode {α : Type} (container : String) (r : Scan α) (data : Bytes) : Except PackedError α :=
  match r (Scanner.start container data) with
  | .ok a _ => .ok a
  | .error e _ => .error e

end Scan

end RedisDump
