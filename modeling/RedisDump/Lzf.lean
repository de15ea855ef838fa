import RedisDump.Bytes
import RedisDump.MachineWord

/-!
# LZF payloads

A compressed payload is a series of tokens. A control byte below 32 announces a literal run of
one more bytes than its value. Any other control byte is a copy from the output: its three top
bits are the length minus two, where seven means that a further byte is added to it, and its
five low bits followed by the next byte are the distance minus one.

A copy may reach into the bytes that it appends itself, so it is made one byte at a time.
Expansion stops as soon as the output is full; input that is left over is not looked at.

Room for the whole output is taken before a token is read, so a declared size for which there
is none is refused whatever the payload. How much room there is lies with the memory (`Room`).
-/

namespace RedisDump.Lzf

/-- A step of the expansion. -/
inductive Token where
  /-- Append these bytes. -/
  | literal (run : Bytes)
  /-- Append `length` bytes, each the one `distance` places before the end. -/
  | copy (distance length : Nat)
  deriving DecidableEq, Repr

/-- What is wrong with a payload. -/
inductive Error where
  /-- The input ended before the output was full. -/
  | exhausted (produced size : Nat)
  /-- A literal run is cut short by the end of the input. -/
  | runOverInput (run offset : Nat)
  /-- A literal run does not fit into the output. -/
  | runOverOutput (run offset : Nat)
  /-- The input ended where a copy's further length byte should stand. -/
  | noCopyLength
  /-- The input ended where a copy's distance byte should stand. -/
  | noCopyDistance
  /-- A copy starts before the first byte of the output. -/
  | copyBeforeStart (missing : Nat)
  /-- A copy does not fit into the output. -/
  | copyOverOutput (length offset : Nat)
  deriving DecidableEq, Repr

/-- The text of a payload error. -/
def Error.message : Error → String
  | .exhausted produced size => s!"Compressed data exhausted after {produced} of {size} bytes"
  | .runOverInput run offset => s!"Literal run of {run} bytes overruns input at offset {offset}"
  | .runOverOutput run offset => s!"Literal run of {run} bytes overruns output at offset {offset}"
  | .noCopyLength => "Truncated back-reference length"
  | .noCopyDistance => "Truncated back-reference offset"
  | .copyBeforeStart missing => s!"Back-reference points {missing} bytes before output start"
  | .copyOverOutput length offset =>
    s!"Back-reference of {length} bytes overruns output at offset {offset}"

/-- The control bytes below this value announce literal runs. -/
def literalLimit : Nat := 32

/-- The length field that announces a further length byte. -/
def longCopy : Nat := 7

/-- The number of input bytes that a token takes. A copy of nine bytes or more does not fit
into the length field and takes the further byte. -/
def Token.width : Token → Nat
  | .literal run => 1 + run.length
  | .copy _ length => if length < longCopy + 2 then 2 else 3

/-- The copy whose control byte is `control` and whose length field, with the further byte
added where there is one, is `field`. -/
def copyToken (control field : Nat) : Bytes → Except Error (Token × Bytes)
  | [] => .error .noCopyDistance
  | b :: rest => .ok (.copy (control % 32 * 256 + b.toNat + 1) (field + 2), rest)

/-- The token that a control byte starts, and the input after it; `offset` is the place of the
byte after the control byte. -/
def readToken (control : UInt8) (offset : Nat) (rest : Bytes) :
    Except Error (Token × Bytes) :=
  let c := control.toNat
  if c < literalLimit then
    let run := rest.take (c + 1)
    if run.length < c + 1 then .error (.runOverInput (c + 1) offset)
    else .ok (.literal run, rest.drop (c + 1))
  else if c / 32 = longCopy then
    match rest with
    | [] => .error .noCopyLength
    | b :: rest => copyToken c (longCopy + b.toNat) rest
  else copyToken c (c / 32) rest

/-- Appends `length` bytes, each the one `distance` places before the end. -/
def appendCopy (distance : Nat) : (length : Nat) → Array UInt8 → Array UInt8
  | 0, out => out
  | length + 1, out => appendCopy distance length (out.push (out.getD (out.size - distance) 0))

/-- The output after a token, as long as it stays within `size` bytes. -/
def Token.apply (size : Nat) (out : Array UInt8) : Token → Except Error (Array UInt8)
  | .literal run =>
    if size < out.size + run.length then .error (.runOverOutput run.length out.size)
    else .ok (run.foldl Array.push out)
  | .copy distance length =>
    if out.size < distance then .error (.copyBeforeStart (distance - out.size))
    else if size < out.size + length then .error (.copyOverOutput length out.size)
    else .ok (appendCopy distance length out)

/-- Reading a copy's distance byte shortens the input. -/
theorem length_of_copyToken {control field : Nat} {src rest : Bytes} {t : Token}
    (h : copyToken control field src = .ok (t, rest)) : rest.length < src.length := by
  cases src with
  | nil => simp [copyToken] at h
  | cons b src =>
    simp only [copyToken, Except.ok.injEq, Prod.mk.injEq] at h
    simp [← h.2]

/-- What follows a token is no longer than what followed its control byte. -/
theorem length_of_readToken {control : UInt8} {offset : Nat} {src rest : Bytes} {t : Token}
    (h : readToken control offset src = .ok (t, rest)) : rest.length ≤ src.length := by
  unfold readToken at h
  dsimp only at h
  split at h
  · split at h
    · simp at h
    · simp only [Except.ok.injEq, Prod.mk.injEq] at h
      simp [← h.2]
  · split at h
    · split at h
      · simp at h
      · have := length_of_copyToken h
        simp only [List.length_cons]
        omega
    · exact Nat.le_of_lt (length_of_copyToken h)

/-- Expands the rest of a payload, of which `offset` bytes have been read, until `out` holds
`size` bytes. -/
def decompressFrom (size offset : Nat) (src : Bytes) (out : Array UInt8) :
    Except Error (Array UInt8) :=
  if size ≤ out.size then .ok out
  else
    match src with
    | [] => .error (.exhausted out.size size)
    | control :: src =>
      match _h : readToken control (offset + 1) src with
      | .error e => .error e
      | .ok (token, rest) =>
        match token.apply size out with
        | .error e => .error e
        | .ok out => decompressFrom size (offset + token.width) rest out
termination_by src.length
decreasing_by
  have := length_of_readToken _h
  simp only [List.length_cons]
  omega

/-- The `size` bytes that a payload expands to. -/
def decompress (src : Bytes) (size : Nat) : Except Error Bytes :=
  (decompressFrom size 0 src #[]).map Array.toList

/-- The sizes for which memory can be had: with a size, every smaller one. -/
structure Room where
  /-- Whether so many bytes can be had. -/
  grants : Nat → Bool
  grants_of_le {m n : Nat} : m ≤ n → grants n = true → grants m = true

namespace Room

/-- Room for fewer bytes than the limit. -/
def below (limit : Nat) : Room where
  grants n := decide (n < limit)
  grants_of_le h hn := decide_eq_true (Nat.lt_of_le_of_lt h (of_decide_eq_true hn))

/-- The room that is counted on when nothing else is said. -/
def standard : Room :=
  below (2 ^ 36)

/-- A size that fits into a machine word, and for which memory can be had. -/
def Holds (room : Room) (size : Nat) : Prop :=
  MachineWord.Fits size ∧ room.grants size = true

instance (room : Room) (size : Nat) : Decidable (room.Holds size) :=
  inferInstanceAs (Decidable (MachineWord.Fits size ∧ room.grants size = true))

theorem Holds.of_le {room : Room} {m n : Nat} (h : room.Holds n) (hle : m ≤ n) :
    room.Holds m := by
  obtain ⟨⟨-, hhalf⟩, hgrants⟩ := h
  refine ⟨⟨?_, Int.lt_of_le_of_lt (Int.ofNat_le.mpr hle) hhalf⟩, room.grants_of_le hle hgrants⟩
  unfold MachineWord.half
  omega

theorem holds_standard {size : Nat} (h : size < 2 ^ 36) : standard.Holds size := by
  refine ⟨?_, decide_eq_true h⟩
  unfold MachineWord.Fits MachineWord.half
  omega

end Room

/-- Why an expansion to a declared size fails. -/
inductive Refusal where
  /-- The size does not fit into a machine word. -/
  | tooWide
  /-- The size is negative. -/
  | negativeSize
  /-- There is no room for so many bytes. -/
  | outOfMemory
  /-- The payload is malformed. -/
  | malformed (e : Error)
  deriving DecidableEq, Repr

namespace Refusal

/-- The text of a refusal. -/
def message : Refusal → String
  | tooWide => MachineWord.tooWideMessage
  | negativeSize => "negative count"
  | outOfMemory => ""
  | malformed e => e.message

/-- Whether a refusal is a fault of the payload, and not of the size alone. -/
def isFault : Refusal → Bool
  | malformed _ => true
  | tooWide | negativeSize | outOfMemory => false

end Refusal

/-- The bytes that a payload expands to, for any declared size. -/
def decompressTo (size : Int) (src : Bytes) (room : Room := .standard) : Except Refusal Bytes :=
  if ¬ MachineWord.Fits size then .error .tooWide
  else if size < 0 then .error .negativeSize
  else if room.grants size.toNat then (decompress src size.toNat).mapError .malformed
  else .error .outOfMemory

/-- A size for which there is room is refused only because of the payload. -/
theorem decompressTo_of_holds {room : Room} {size : Nat} (h : room.Holds size) (src : Bytes) :
    decompressTo size src room = (decompress src size).mapError .malformed := by
  have hpos : ¬ (size : Int) < 0 := by omega
  simp [decompressTo, h.1, hpos, h.2]

end RedisDump.Lzf
