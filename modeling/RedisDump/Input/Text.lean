import RedisDump.Binary64.Notation
import RedisDump.Input.Length
import RedisDump.Score

/-!
# Strings and scores

A string is its length followed by its bytes, or, when the two top bits of its first byte are
both set, a small integer that stands for its decimal text or a compressed payload. A declared
length above the limit is refused before a byte of the string is read; the text of a small
integer is short enough not to be checked.

A score in the older form is a text of at most 252 bytes after its length byte, the three
greatest length bytes standing for the special scores; in the newer form it is a binary double.
-/

namespace RedisDump

/-- The greatest length of a string when nothing else is said. -/
def defaultTextLimit : Int := 2 ^ 31 - 1

namespace Read

/-- Refuses a declared length above the limit. -/
def checkTextLength (limit : Int) (length : Nat) : Read Unit :=
  if limit < length then throw (.tooLarge (.ofText limit length)) else return ()

/-- The bytes of a string of a declared length. -/
def rawText (limit : Int) (length : Nat) : Read Bytes := do
  checkTextLength limit length
  bytes length

/-- The decimal text of a signed integer of `width` bytes. -/
def integerText (width : Nat) : Read Bytes :=
  return Bytes.decimal (← bytes width).leInt

/-- A compressed string: the length of the payload, that of the string, and the payload. -/
def compressedText (limit : Int) : Read Bytes := do
  let packed ← length
  let size ← length
  checkTextLength limit size
  let payload ← rawText limit packed
  match Lzf.decompressTo size payload with
  | .ok expanded => return expanded
  | .error e => throw (.payload e)

/-- The string in the special encoding that the six low bits of its first byte name. -/
def specialText (limit : Int) (form : Nat) : Read Bytes :=
  match form with
  | 0 => integerText 1
  | 1 => integerText 2
  | 2 => integerText 4
  | 3 => compressedText limit
  | _ => throw (.format (.unknownTextForm form))

/-- A string of at most `limit` bytes. -/
def text (limit : Int) : Read Bytes := do
  let b ← byte
  match b.toNat / 64 with
  | 0 => rawText limit b.toNat
  | 1 => rawText limit (b.toNat % 64 * 256 + (← byte).toNat)
  | 2 => rawText limit (← wideLength b)
  | _ => specialText limit (b.toNat % 64)

/-- A string that is in no special encoding starts with a length. -/
theorem text_eq (limit : Int) : text limit = (do
    let b ← byte
    if b.toNat / 64 = 3 then specialText limit (b.toNat % 64)
    else rawText limit (← lengthFrom b)) := by
  unfold text lengthFrom
  congr 1
  funext b
  have hb : b.toNat < 256 := b.toNat_lt
  obtain h | h | h | h : b.toNat / 64 = 0 ∨ b.toNat / 64 = 1 ∨ b.toNat / 64 = 2 ∨
      b.toNat / 64 = 3 := by omega
  · rw [h]
    rfl
  · have hassoc := bind_assoc byte
      (fun c => (pure (b.toNat % 64 * 256 + c.toNat) : Read Nat)) (rawText limit)
    rw [h]
    exact hassoc.symm
  · rw [h]
    rfl
  · rw [h]
    rfl

/-- A score in the form of a text. -/
def scoreText : Read Bytes := do
  match (← byte).toNat with
  | 0xFF => return Score.Special.negativeInfinity.text
  | 0xFE => return Score.Special.positiveInfinity.text
  | 0xFD => return Score.Special.notANumber.text
  | n => bytes n

/-- The text of a score in the form of a binary double. -/
def scoreBinary : Read Bytes :=
  return (Binary64.ofBytes (← bytes 8)).text

theorem checkTextLength_steady (limit : Int) (length : Nat) :
    Steady Input.remaining (checkTextLength limit length) := by
  unfold checkTextLength
  split
  · exact (Eager.throw _).steady
  · exact Steady.pure _

theorem rawText_steady (limit : Int) (length : Nat) :
    Steady Input.remaining (rawText limit length) :=
  (checkTextLength_steady limit length).bind fun _ => bytes_steady length

theorem integerText_steady (width : Nat) : Steady Input.remaining (integerText width) :=
  (bytes_steady width).bind fun _ => Steady.pure _

theorem compressedText_steady (limit : Int) : Steady Input.remaining (compressedText limit) := by
  refine length_eager.steady.bind fun _ => length_eager.steady.bind fun _ =>
    (checkTextLength_steady _ _).bind fun _ => (rawText_steady _ _).bind fun _ => ?_
  split
  · exact Steady.pure _
  · exact (Eager.throw _).steady

theorem specialText_steady (limit : Int) (form : Nat) :
    Steady Input.remaining (specialText limit form) := by
  unfold specialText
  split
  · exact integerText_steady 1
  · exact integerText_steady 2
  · exact integerText_steady 4
  · exact compressedText_steady limit
  · exact (Eager.throw _).steady

theorem text_eager (limit : Int) : Eager Input.remaining (text limit) := by
  rw [text_eq]
  refine byte_eager.bind fun b => ?_
  split
  · exact specialText_steady limit _
  · exact (lengthFrom_steady b).bind fun _ => rawText_steady limit _

theorem scoreText_eager : Eager Input.remaining scoreText := by
  refine byte_eager.bind fun b => ?_
  split
  · exact Steady.pure _
  · exact Steady.pure _
  · exact Steady.pure _
  · exact bytes_steady _

theorem scoreBinary_steady : Steady Input.remaining scoreBinary :=
  (bytes_steady 8).bind fun _ => Steady.pure _

end Read

end RedisDump
