import RedisDump.Collect
import RedisDump.ReadError

/-!
# Buffered input

An input draws portions from a source and hands their bytes out one after the other, counting
them. Everything else that reads a snapshot is built from one primitive, `Read.next`: the next
byte, or an error that tells how many bytes were still needed. A read that fails keeps the
place at which it failed, so bytes that it had already taken are gone, and are counted.
-/

namespace RedisDump

/-- The size of a portion that is asked for when nothing else is said. -/
def defaultBufferSize : Int := 8 * 1024

/-- The state of reading from a source. -/
structure Input where
  /-- Where the bytes come from. -/
  source : Source
  /-- The size of the portions asked for. -/
  bufferSize : Int := defaultBufferSize
  /-- The bytes drawn from the source and not handed out yet. -/
  unread : Bytes := []
  /-- The number of bytes handed out. -/
  consumed : Nat := 0
  /-- Whether the input has been closed. -/
  closed : Bool := false
  deriving DecidableEq, Repr

namespace Input

/-- The number of bytes that can still be handed out. -/
def remaining (i : Input) : Nat :=
  i.unread.length + i.source.remaining

/-- Closes the input and, the first time, its source; bytes not handed out are dropped. -/
def close (i : Input) : Input :=
  if i.closed then i
  else { i with closed := true, unread := [], source := i.source.close }

/-- Closes the input where the source, closed so many times for it, fails to close. -/
def closeFailing (i : Input) (calls : Nat) : Input :=
  if i.closed then i
  else
    { i with
      closed := true
      unread := []
      source := { i.source with closeCalls := i.source.closeCalls + calls } }

end Input

/-- A computation that reads from an input. -/
abbrev Read := EStateM ReadError Input

namespace Read

/-- The next byte of a read that still needs `needed` bytes. -/
def next (needed : Nat) : Read UInt8 := fun i =>
  match i.unread with
  | b :: rest => .ok b { i with unread := rest, consumed := i.consumed + 1 }
  | [] =>
    match i.source.read i.bufferSize with
    | (.error e, source) => .error (.source e) { i with source := source }
    | (.ok [], source) => .error (.truncated i.consumed needed) { i with source := source }
    | (.ok (b :: rest), source) =>
      .ok b { i with source := source, unread := rest, consumed := i.consumed + 1 }

/-- One byte on its own. -/
def byte : Read UInt8 := next 1

/-- The next `n` bytes. -/
def bytes (n : Nat) : Read Bytes := collect next n

/-- The next `n` bytes, for a number that may be negative; then nothing is read. -/
def request : (n : Int) → Read Bytes
  | .ofNat n => bytes n
  | .negSucc n => throw (.negativeRequest (.negSucc n))

/-- A byte handed out is one byte less to come. -/
theorem remaining_next {needed : Nat} {i i' : Input} {b : UInt8}
    (h : next needed i = .ok b i') : i'.remaining + 1 = i.remaining := by
  unfold next at h
  split at h
  · rename_i hu
    cases h
    simp [Input.remaining, hu]
    omega
  · rename_i hu
    split at h
    · cases h
    · cases h
    · rename_i hs
      cases h
      have := Source.remaining_read hs
      simp only [List.length_cons] at this
      simp [Input.remaining, hu]
      omega

/-- A byte handed out is counted. -/
theorem consumed_next {needed : Nat} {i i' : Input} {b : UInt8}
    (h : next needed i = .ok b i') : i'.consumed = i.consumed + 1 := by
  unfold next at h
  split at h
  · cases h
    rfl
  · split at h
    · cases h
    · cases h
    · cases h
      rfl

theorem next_eager (needed : Nat) : Eager Input.remaining (next needed) := by
  intro i b i' h
  have := remaining_next h
  omega

theorem byte_eager : Eager Input.remaining byte :=
  next_eager 1

theorem bytes_steady (n : Nat) : Steady Input.remaining (bytes n) :=
  Steady.collect (fun k => (next_eager k).steady) n

end Read

end RedisDump
