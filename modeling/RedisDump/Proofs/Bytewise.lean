import RedisDump.Snapshot.Header
import RedisDump.Snapshot.Record

/-!
# Reading byte by byte

Every reader of a snapshot is put together from single bytes: it asks for the next one, decides on
it, and gives up only because of what it has read. Such a reader is *bytewise*; it sees neither
the source, nor how many bytes lie ready, nor how many have been read. A reader of records is
*recordwise* when it looks at nothing else either but the notes for the next key.

Here every reader is shown to be one or the other, once. What holds of all bytewise readers is
then an induction over `Bytewise`, with the next byte as its only interesting case.
-/

namespace RedisDump

/-- Whether an error tells what is wrong with the bytes read, and not that there are no more. -/
def ReadError.isVerdict : ReadError → Bool
  | .truncated .. | .source _ => false
  | .format _ | .payload _ | .unsupported _ | .tooLarge _ | .negativeRequest _ => true

/-- A reader that is put together from single bytes. -/
inductive Bytewise : {α : Type} → Read α → Prop where
  /-- Nothing is read. -/
  | pure {α : Type} (a : α) : Bytewise (Pure.pure a)
  /-- What has been read is refused. -/
  | throw {α : Type} {e : ReadError} (h : e.isVerdict = true) :
      Bytewise (MonadExcept.throw e : Read α)
  /-- A byte is read. -/
  | next (needed : Nat) : Bytewise (Read.next needed)
  /-- What is read first decides how to go on. -/
  | bind {α β : Type} {r : Read α} {f : α → Read β} :
      Bytewise r → (∀ a, Bytewise (f a)) → Bytewise (r >>= f)

namespace Bytewise

open Read

theorem collectInto {α : Type} {item : Nat → Read α} (h : ∀ k, Bytewise (item k)) (n : Nat)
    (done : List α) : Bytewise (collectInto item n done) := by
  induction n generalizing done with
  | zero => exact .pure _
  | succ n ih =>
    rw [collectInto_succ]
    exact .bind (h _) fun a => ih (a :: done)

/-- A counted sequence of bytewise readers is bytewise. -/
theorem collect {α : Type} {item : Nat → Read α} (h : ∀ k, Bytewise (item k)) (n : Nat) :
    Bytewise (collect item n) :=
  collectInto h n []

/-! ### Bytes, lengths, strings and scores -/

theorem byte : Bytewise Read.byte := .next 1

theorem bytes (n : Nat) : Bytewise (Read.bytes n) := collect .next n

theorem bigEndian (n : Nat) : Bytewise (Read.bigEndian n) := .bind (bytes n) fun _ => .pure _

theorem littleEndian (n : Nat) : Bytewise (Read.littleEndian n) := .bind (bytes n) fun _ => .pure _

theorem wideLength (b : UInt8) : Bytewise (Read.wideLength b) := by
  unfold Read.wideLength
  split
  · exact bigEndian 4
  · split
    · exact bigEndian 8
    · exact .throw rfl

theorem lengthFrom (b : UInt8) : Bytewise (Read.lengthFrom b) := by
  unfold Read.lengthFrom
  split
  · exact .pure _
  · exact .bind byte fun _ => .pure _
  · exact wideLength b
  · exact .throw rfl

theorem length : Bytewise Read.length := .bind byte lengthFrom

theorem checkTextLength (limit : Int) (length : Nat) :
    Bytewise (Read.checkTextLength limit length) := by
  unfold Read.checkTextLength
  split
  · exact .throw rfl
  · exact .pure _

theorem rawText (limit : Int) (length : Nat) : Bytewise (Read.rawText limit length) :=
  .bind (checkTextLength limit length) fun _ => bytes length

theorem integerText (width : Nat) : Bytewise (Read.integerText width) :=
  .bind (bytes width) fun _ => .pure _

theorem compressedText (limit : Int) : Bytewise (Read.compressedText limit) := by
  refine .bind length fun packed => .bind length fun size =>
    .bind (checkTextLength limit size) fun _ => .bind (rawText limit packed) fun payload => ?_
  split
  · exact .pure _
  · exact .throw rfl

theorem specialText (limit : Int) (form : Nat) : Bytewise (Read.specialText limit form) := by
  unfold Read.specialText
  split
  · exact integerText 1
  · exact integerText 2
  · exact integerText 4
  · exact compressedText limit
  · exact .throw rfl

theorem text (limit : Int) : Bytewise (Read.text limit) := by
  rw [text_eq]
  refine .bind byte fun b => ?_
  split
  · exact specialText limit _
  · exact .bind (lengthFrom b) fun n => rawText limit n

theorem scoreText : Bytewise Read.scoreText := by
  refine .bind byte fun b => ?_
  split
  · exact .pure _
  · exact .pure _
  · exact .pure _
  · exact bytes _

theorem scoreBinary : Bytewise Read.scoreBinary := .bind (bytes 8) fun _ => .pure _

/-! ### The header and the values of keys -/

theorem signature : Bytewise Read.signature := by
  refine .bind (bytes _) fun _ => ?_
  split
  · exact .pure _
  · exact .throw rfl

theorem versionField : Bytewise Read.versionField := by
  refine .bind (bytes _) fun _ => ?_
  split
  · exact .pure _
  · exact .throw rfl

theorem header (p : Profile) : Bytewise (Read.header p) := by
  refine .bind signature fun _ => .bind versionField fun _ => ?_
  split
  · exact .pure _
  · exact .throw rfl

theorem count (collection : Collection) (limit : Int) :
    Bytewise (Read.count collection limit) := by
  refine .bind length fun _ => ?_
  split
  · exact .throw rfl
  · exact .pure _

theorem texts (p : Profile) (collection : Collection) : Bytewise (Read.texts p collection) :=
  .bind (count _ _) fun _ => collect (fun _ => text _) _

theorem pair (p : Profile) {second : Read Bytes} (h : Bytewise second) :
    Bytewise (Read.pair p second) :=
  .bind (text _) fun _ => .bind h fun _ => .pure _

theorem pairs (p : Profile) (collection : Collection) {second : Read Bytes}
    (h : Bytewise second) : Bytewise (Read.pairs p collection second) :=
  .bind (count _ _) fun _ => .bind (collect (fun _ => pair p h) _) fun _ => .pure _

theorem node (p : Profile) : Bytewise (Read.node p) :=
  .bind length fun _ => .bind (text _) fun _ => .pure _

theorem nodes (p : Profile) : Bytewise (Read.nodes p) :=
  .bind (count _ _) fun _ => collect (fun _ => node p) _

theorem container (p : Profile) (pack : Bytes → Packed) : Bytewise (Read.container p pack) :=
  .bind (text _) fun _ => .pure _

theorem value (p : Profile) (cutoff : Int) (kind : ValueKind) :
    Bytewise (Read.value p cutoff kind) := by
  cases kind with
  | string => exact .bind (text _) fun _ => .pure _
  | list | set | listQuicklist => exact .bind (texts p _) fun _ => .pure _
  | sortedSet => exact .bind (pairs p _ scoreText) fun _ => .pure _
  | sortedSet2 => exact .bind (pairs p _ scoreBinary) fun _ => .pure _
  | hash => exact .bind (pairs p _ (text _)) fun _ => .pure _
  | listQuicklist2 => exact .bind (nodes p) fun _ => .pure _
  | hashZipmap | listZiplist | setIntset | sortedSetZiplist | hashZiplist | setListpack
  | hashListpack | sortedSetListpack => exact container p _

theorem eof (version : Nat) : Bytewise (ReadRecord.eof version) := by
  unfold ReadRecord.eof
  split
  · exact .bind (bytes _) fun _ => .pure _
  · exact .pure _

theorem selectDb : Bytewise ReadRecord.selectDb := .bind length fun _ => .pure _

theorem resizeDb : Bytewise ReadRecord.resizeDb :=
  .bind length fun _ => .bind length fun _ => .pure _

theorem aux (p : Profile) : Bytewise (ReadRecord.aux p) :=
  .bind (text _) fun _ => .bind (text _) fun _ => .pure _

end Bytewise

/-! ### Records -/

/-- A reader of records that is put together from bytewise readers and looks besides only at the
notes for the next key. -/
inductive Recordwise : {α : Type} → ReadRecord α → Prop where
  /-- Bytes are read. -/
  | input {α : Type} {r : Read α} : Bytewise r → Recordwise (ReadRecord.fromInput r)
  /-- Nothing is read. -/
  | pure {α : Type} (a : α) : Recordwise (Pure.pure a)
  /-- What has been read is refused. -/
  | throw {α : Type} {e : ReadError} (h : e.isVerdict = true) :
      Recordwise (MonadExcept.throw e : ReadRecord α)
  /-- The notes decide how to go on. -/
  | consult {α : Type} {f : KeyNotes → ReadRecord α} :
      (∀ notes, Recordwise (f notes)) → Recordwise (fun s => f s.notes s)
  /-- The notes are changed. -/
  | amend (f : KeyNotes → KeyNotes) :
      Recordwise (modify fun s => { s with notes := f s.notes } : ReadRecord Unit)
  /-- What is read first decides how to go on. -/
  | bind {α β : Type} {r : ReadRecord α} {f : α → ReadRecord β} :
      Recordwise r → (∀ a, Recordwise (f a)) → Recordwise (r >>= f)

namespace Recordwise

open ReadRecord

theorem note {α : Type} {r : Read α} (h : Bytewise r) (f : α → KeyNotes → KeyNotes) :
    Recordwise (note r f) :=
  .bind (.input h) fun a => .bind (.amend (f a)) fun _ => .pure _

theorem gate (p : Profile) (version : Nat) (part : VersionedPart) :
    Recordwise (gate p version part) := by
  unfold ReadRecord.gate
  split
  · exact .throw rfl
  · exact .pure _

theorem standalone (op : Opcode) {r : Read (Entry Packed)} (h : Bytewise r) :
    Recordwise (standalone op r) := by
  refine .consult (f := fun notes =>
    if notes.isEmpty then do return some (← fromInput r)
    else MonadExcept.throw (ReadError.format (.strayMetadata op))) fun notes => ?_
  split
  · exact .bind (.input h) fun _ => .pure _
  · exact .throw rfl

theorem opcodeBody (p : Profile) (version : Nat) (op : Opcode) :
    Recordwise (opcodeBody p version op) := by
  unfold ReadRecord.opcodeBody
  cases op with
  | function2 | functionPreGa | moduleAux => exact .throw rfl
  | idle => exact note .length _
  | freq => exact note .byte _
  | expireTimeMs => exact note (.littleEndian 8) _
  | expireTime => exact note (.littleEndian 4) _
  | aux => exact standalone _ (.aux p)
  | resizeDb => exact standalone _ .resizeDb
  | selectDb => exact standalone _ .selectDb
  | eof => exact standalone _ (.eof version)

theorem keyValue (p : Profile) (version : Nat) (kind : ValueKind) :
    Recordwise (keyValue p version kind) := by
  refine .bind (.input (.text _)) fun key => .bind (.input (.value p _ kind)) fun values => ?_
  let put (notes : KeyNotes) : ReadRecord (Entry Packed) := do
    modify fun s => { s with notes := {} }
    return .keyValue (notes.fields key kind) values
  exact .consult (f := put) fun _ => .bind (.amend fun _ => {}) fun _ => .pure _

theorem keyRecord (p : Profile) (version : Nat) (b : UInt8) :
    Recordwise (keyRecord p version b) := by
  unfold ReadRecord.keyRecord
  split
  · exact .throw rfl
  · exact .throw rfl
  · exact .bind (gate p version _) fun _ => keyValue p version _

/-- Reading a record is recordwise. -/
theorem record (p : Profile) (version : Nat) : Recordwise (record p version) := by
  refine .bind (.input .byte) fun b => ?_
  split
  · exact .bind (gate p version _) fun _ => opcodeBody p version _
  · exact .bind (keyRecord p version b) fun _ => .pure _

end Recordwise

end RedisDump
