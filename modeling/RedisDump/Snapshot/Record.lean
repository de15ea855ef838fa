import RedisDump.Entry
import RedisDump.Snapshot.Value

/-!
# Records

After the header a snapshot is a sequence of records. A record starts with an opcode or with the
byte of a kind of value, and a part of the format newer than the snapshot is refused as soon as
that byte is read. Four opcodes hold metadata of the next key; they make no entry of their own
but are noted until the key comes. Any other opcode that meets such a note is refused.
-/

namespace RedisDump

/-- The metadata of the next key that has been read so far. -/
structure KeyNotes where
  expireTimeMs? : Option Nat := none
  freq? : Option UInt8 := none
  idleSeconds? : Option Nat := none
  deriving DecidableEq, Repr

/-- Whether nothing has been noted. -/
def KeyNotes.isEmpty (n : KeyNotes) : Bool :=
  n.expireTimeMs?.isNone && n.freq?.isNone && n.idleSeconds?.isNone

/-- The fields of a key with its metadata. -/
def KeyNotes.fields (n : KeyNotes) (key : Bytes) (kind : ValueKind) : KeyFields :=
  { key, kind
    expireTimeMs? := n.expireTimeMs?.map Int.ofNat
    idleSeconds? := n.idleSeconds?.map Int.ofNat
    freq? := n.freq? }

/-- The state of reading records: the input, and what has been noted for the next key. -/
structure Intake where
  input : Input
  notes : KeyNotes := {}
  deriving DecidableEq, Repr

/-- The number of bytes that can still be read. -/
def Intake.remaining (s : Intake) : Nat :=
  s.input.remaining

/-- A computation that reads records. -/
abbrev ReadRecord := EStateM ReadError Intake

namespace ReadRecord

/-- A computation that only reads from the input. -/
def fromInput {α : Type} (r : Read α) : ReadRecord α := fun s =>
  match r s.input with
  | .ok a input => .ok a { s with input := input }
  | .error e input => .error e { s with input := input }

/-- Notes what is read for the next key. -/
def note {α : Type} (r : Read α) (f : α → KeyNotes → KeyNotes) :
    ReadRecord (Option (Entry Packed)) := do
  let a ← fromInput r
  modify fun s => { s with notes := f a s.notes }
  return none

/-- Refuses a part of the format that is newer than the snapshot. -/
def gate (p : Profile) (version : Nat) (part : VersionedPart) : ReadRecord Unit :=
  if p.refuses part version then throw (.format (.tooNew part version)) else return ()

/-- An entry of an opcode that may not come between the metadata of a key and the key. -/
def standalone (op : Opcode) (r : Read (Entry Packed)) : ReadRecord (Option (Entry Packed)) := do
  if (← get).notes.isEmpty then return some (← fromInput r)
  else throw (.format (.strayMetadata op))

/-- The first format version whose snapshots end with a checksum. -/
def checksumVersion : Nat := 5

/-- The end of a snapshot; without a checksum it counts as all zeros. -/
def eof (version : Nat) : Read (Entry Packed) :=
  if checksumVersion ≤ version then return .eof (← Read.bytes checksumWidth)
  else return .eof (List.replicate checksumWidth 0)

/-- The selection of a database. -/
def selectDb : Read (Entry Packed) :=
  return .selectDb (← Read.length)

/-- The sizes of the current database's tables. -/
def resizeDb : Read (Entry Packed) := do
  let size ← Read.length
  let expireSize ← Read.length
  return .resizeDb size expireSize

/-- A field of information about the snapshot. -/
def aux (p : Profile) : Read (Entry Packed) := do
  let key ← Read.text p.textLimit
  let value ← Read.text p.textLimit
  return .aux key value

/-- What follows an opcode: an entry, or a note for the next key. -/
def opcodeBody (p : Profile) (version : Nat) (op : Opcode) :
    ReadRecord (Option (Entry Packed)) :=
  match op with
  | .expireTime =>
    note (Read.littleEndian 4) fun n s => { s with expireTimeMs? := some (n * 1000) }
  | .expireTimeMs => note (Read.littleEndian 8) fun n s => { s with expireTimeMs? := some n }
  | .freq => note Read.byte fun b s => { s with freq? := some b }
  | .idle => note Read.length fun n s => { s with idleSeconds? := some n }
  | .moduleAux => throw (.unsupported .moduleAux)
  | .function2 | .functionPreGa => throw (.unsupported .functions)
  | .eof => standalone op (eof version)
  | .selectDb => standalone op selectDb
  | .resizeDb => standalone op resizeDb
  | .aux => standalone op (aux p)

/-- A key with a value of the given kind, which takes what has been noted for it. -/
def keyValue (p : Profile) (version : Nat) (kind : ValueKind) : ReadRecord (Entry Packed) := do
  let key ← fromInput (Read.text p.textLimit)
  let values ← fromInput (Read.value p (p.cutoffFor version) kind)
  let notes := (← get).notes
  modify fun s => { s with notes := {} }
  return .keyValue (notes.fields key kind) values

/-- The key that the byte of a kind of value announces. -/
def keyRecord (p : Profile) (version : Nat) (b : UInt8) : ReadRecord (Entry Packed) :=
  match ValueCode.ofByte? b with
  | none => throw (.format (.unknownValueCode b))
  | some (.refused kind) => throw (.unsupported (.value kind))
  | some (.known kind) => do
    gate p version (.value kind)
    keyValue p version kind

/-- A record: an entry, or a note for the next key. -/
def record (p : Profile) (version : Nat) : ReadRecord (Option (Entry Packed)) := do
  let b ← fromInput Read.byte
  match Opcode.ofByte? b with
  | some op =>
    gate p version (.opcode op)
    opcodeBody p version op
  | none => return some (← keyRecord p version b)

theorem steady_fromInput {α : Type} {r : Read α} (h : Steady Input.remaining r) :
    Steady Intake.remaining (fromInput r) := by
  intro s a s' hr
  unfold fromInput at hr
  split at hr
  · cases hr
    exact h _ _ _ ‹_›
  · cases hr

theorem eager_fromInput {α : Type} {r : Read α} (h : Eager Input.remaining r) :
    Eager Intake.remaining (fromInput r) := by
  intro s a s' hr
  unfold fromInput at hr
  split at hr
  · cases hr
    exact h _ _ _ ‹_›
  · cases hr

theorem steady_get : Steady Intake.remaining (get : ReadRecord Intake) := by
  intro s a s' h
  cases h
  exact Nat.le_refl _

theorem steady_note (f : KeyNotes → KeyNotes) :
    Steady Intake.remaining (modify fun s => { s with notes := f s.notes } : ReadRecord Unit) := by
  intro s a s' h
  cases h
  exact Nat.le_refl _

theorem note_steady {α : Type} {r : Read α} (h : Steady Input.remaining r)
    (f : α → KeyNotes → KeyNotes) : Steady Intake.remaining (note r f) :=
  (steady_fromInput h).bind fun a => (steady_note (f a)).bind fun _ => Steady.pure _

theorem gate_steady (p : Profile) (version : Nat) (part : VersionedPart) :
    Steady Intake.remaining (gate p version part) := by
  unfold gate
  split
  · exact (Eager.throw _).steady
  · exact Steady.pure _

theorem standalone_steady (op : Opcode) {r : Read (Entry Packed)}
    (h : Steady Input.remaining r) : Steady Intake.remaining (standalone op r) := by
  refine steady_get.bind fun _ => ?_
  split
  · exact (steady_fromInput h).bind fun _ => Steady.pure _
  · exact (Eager.throw _).steady

theorem eof_steady (version : Nat) : Steady Input.remaining (eof version) := by
  unfold eof
  split
  · exact (Read.bytes_steady _).bind fun _ => Steady.pure _
  · exact Steady.pure _

theorem selectDb_steady : Steady Input.remaining selectDb :=
  Read.length_eager.steady.bind fun _ => Steady.pure _

theorem resizeDb_steady : Steady Input.remaining resizeDb :=
  Read.length_eager.steady.bind fun _ => Read.length_eager.steady.bind fun _ => Steady.pure _

theorem aux_steady (p : Profile) : Steady Input.remaining (aux p) :=
  (Read.text_eager _).steady.bind fun _ => (Read.text_eager _).steady.bind fun _ => Steady.pure _

theorem opcodeBody_steady (p : Profile) (version : Nat) (op : Opcode) :
    Steady Intake.remaining (opcodeBody p version op) := by
  cases op <;> dsimp only [opcodeBody]
  · exact (Eager.throw _).steady
  · exact (Eager.throw _).steady
  · exact (Eager.throw _).steady
  · exact note_steady Read.length_eager.steady _
  · exact note_steady Read.byte_eager.steady _
  · exact standalone_steady _ (aux_steady p)
  · exact standalone_steady _ resizeDb_steady
  · exact note_steady (Read.littleEndian_steady 8) _
  · exact note_steady (Read.littleEndian_steady 4) _
  · exact standalone_steady _ selectDb_steady
  · exact standalone_steady _ (eof_steady version)

theorem keyValue_steady (p : Profile) (version : Nat) (kind : ValueKind) :
    Steady Intake.remaining (keyValue p version kind) :=
  (steady_fromInput (Read.text_eager _).steady).bind fun _ =>
    (steady_fromInput (Read.value_steady _ _ _)).bind fun _ => steady_get.bind fun _ =>
      (steady_note fun _ => {}).bind fun _ => Steady.pure _

theorem keyRecord_steady (p : Profile) (version : Nat) (b : UInt8) :
    Steady Intake.remaining (keyRecord p version b) := by
  unfold keyRecord
  split
  · exact (Eager.throw _).steady
  · exact (Eager.throw _).steady
  · exact (gate_steady _ _ _).bind fun _ => keyValue_steady _ _ _

theorem record_eager (p : Profile) (version : Nat) :
    Eager Intake.remaining (record p version) := by
  refine (eager_fromInput Read.byte_eager).bind fun b => ?_
  split
  · exact (gate_steady _ _ _).bind fun _ => opcodeBody_steady _ _ _
  · exact (keyRecord_steady _ _ _).bind fun _ => Steady.pure _

/-- The next entry of a snapshot of the given version, with the metadata before it. -/
def entry (p : Profile) (version : Nat) : ReadRecord (Entry Packed) := fun s =>
  match _h : record p version s with
  | .error e s => .error e s
  | .ok (some e) s => .ok e s
  | .ok none s => entry p version s
termination_by s => s.remaining
decreasing_by exact record_eager _ _ _ _ _ _h

theorem entry_of_error {p : Profile} {version : Nat} {s s' : Intake} {e : ReadError}
    (h : record p version s = .error e s') : entry p version s = .error e s' := by
  unfold entry
  split <;> simp_all

theorem entry_of_some {p : Profile} {version : Nat} {s s' : Intake} {e : Entry Packed}
    (h : record p version s = .ok (some e) s') : entry p version s = .ok e s' := by
  unfold entry
  split <;> simp_all

/-- After a note for the next key the reading of the entry goes on. -/
theorem entry_of_none {p : Profile} {version : Nat} {s s' : Intake}
    (h : record p version s = .ok none s') : entry p version s = entry p version s' := by
  rw [entry]
  split <;> simp_all

theorem entry_eager (p : Profile) (version : Nat) : Eager Intake.remaining (entry p version) := by
  intro s a s' h
  fun_induction entry p version s with
  | case1 => cases h
  | case2 s e s₁ h₁ =>
    cases h
    exact record_eager _ _ _ _ _ h₁
  | case3 s s₁ h₁ ih => exact Nat.lt_trans (ih h) (record_eager _ _ _ _ _ h₁)

end ReadRecord

end RedisDump
