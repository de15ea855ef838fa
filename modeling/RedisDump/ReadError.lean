import RedisDump.Text.Quoted
import RedisDump.Text.Writable
import RedisDump.Opcode
import RedisDump.ValueKind
import RedisDump.Lzf
import RedisDump.Source

/-!
# Errors of reading

Everything that can go wrong while bytes of a snapshot are read, by cause, with the text of each
error. All but the failures of the source itself, a negative request, a size for which there is no
room and a refusal that cannot be put into words are faults of the snapshot, after which reading
cannot go on (`ReadError.isFault`).
-/

namespace RedisDump

/-- A part of the format that came with some version of it. -/
inductive VersionedPart where
  | opcode (op : Opcode)
  | value (kind : ValueKind)
  deriving DecidableEq, Repr

/-- The name of a part in messages. -/
def VersionedPart.label : VersionedPart → String
  | .opcode op => "Opcode " ++ op.label
  | .value kind => "Value type " ++ kind.wireName

/-- The format version in which a part first appeared. -/
def VersionedPart.since : VersionedPart → Nat
  | .opcode op => op.since
  | .value kind => kind.since

/-- The ways in which bytes are no snapshot. -/
inductive FormatError where
  /-- The first bytes are not those of a snapshot. -/
  | notASnapshot
  /-- The version field is not all digits. -/
  | badVersionField (field : Bytes)
  /-- The version is outside the accepted range. -/
  | unknownVersion (version : Nat)
  /-- A part of the format is newer than the snapshot's version. -/
  | tooNew (part : VersionedPart) (version : Nat)
  /-- Metadata of a key is followed by an opcode that starts another record. -/
  | strayMetadata (op : Opcode)
  /-- The byte before a key is no known kind of value. -/
  | unknownValueCode (b : UInt8)
  /-- A length is in an unknown form. -/
  | unknownLengthForm (b : UInt8)
  /-- A string in a special encoding stands where a length is expected. -/
  | notALength
  /-- A string is in an unknown special encoding. -/
  | unknownTextForm (form : Nat)
  deriving DecidableEq, Repr

/-- The text of a format error. -/
def FormatError.message : FormatError → String
  | .notASnapshot => "Not a valid redis RDB file"
  | .badVersionField field => "Invalid version field " ++ Text.quotedBytes field
  | .unknownVersion version => s!"Unknown version {version}"
  | .tooNew part version =>
    let name := part.label
    let since := part.since
    s!"{name} requires format version {since}, snapshot is version {version}"
  | .strayMetadata op =>
    let name := op.label
    s!"Opcode {name} found between key metadata and its value"
  | .unknownValueCode b =>
    let code := b.toNat
    s!"Unknown value type: {code}"
  | .unknownLengthForm b =>
    "Unknown length encoding: 0x" ++ String.ofList (Text.hexDigits 2 b.toNat)
  | .notALength => "Expected a length, but got a special string encoding"
  | .unknownTextForm form => s!"Unknown special string encoding: {form}"

/-- The kinds of collections that have a greatest size. -/
inductive Collection where
  | lists
  | sets
  | sortedSets
  | hashes
  | quicklists
  deriving DecidableEq, Repr

/-- The name of a kind of collections in messages. -/
def Collection.label : Collection → String
  | .lists => "Lists"
  | .sets => "Sets"
  | .sortedSets => "Sorted sets"
  | .hashes => "Hashes"
  | .quicklists => "Quicklists"

/-- A declared size above its limit. -/
inductive SizeError where
  /-- A collection declares too many elements. -/
  | tooManyElements (collection : Collection) (limit : Int) (count : Nat)
  /-- A string declares too many bytes. -/
  | tooLongText (limit : Int) (length : Nat)
  /-- The limit has too many digits for the refusal that is to name it. What is raised is the error
  of writing out the limit, which is none of the format. -/
  | unwritable
  deriving DecidableEq, Repr

namespace SizeError

/-- What a number of elements above its limit raises. -/
def ofElements (collection : Collection) (limit : Int) (count : Nat) : SizeError :=
  if Text.Writable limit then .tooManyElements collection limit count else .unwritable

/-- What a length of a string above its limit raises. -/
def ofText (limit : Int) (length : Nat) : SizeError :=
  if Text.Writable limit then .tooLongText limit length else .unwritable

/-- The text of a size error. -/
def message : SizeError → String
  | tooManyElements collection limit count =>
    let name := collection.label
    s!"{name} with more than {limit} elements are not supported ({count})"
  | tooLongText limit length =>
    s!"Strings longer than {limit} bytes are not supported ({length})"
  | unwritable => Text.tooManyDigits

/-- Whether a size error is a refusal, and not a failure to make one. -/
def isFault : SizeError → Bool
  | tooManyElements .. | tooLongText .. => true
  | unwritable => false

theorem ofElements_of_writable {limit : Int} (h : Text.Writable limit) (collection : Collection)
    (count : Nat) : ofElements collection limit count = .tooManyElements collection limit count :=
  if_pos h

theorem ofText_of_writable {limit : Int} (h : Text.Writable limit) (length : Nat) :
    ofText limit length = .tooLongText limit length :=
  if_pos h

theorem ofElements_eq_unwritable_iff {limit : Int} {collection : Collection} {count : Nat} :
    ofElements collection limit count = .unwritable ↔ ¬ Text.Writable limit := by
  unfold ofElements
  split <;> simp_all

theorem ofText_eq_unwritable_iff {limit : Int} {length : Nat} :
    ofText limit length = .unwritable ↔ ¬ Text.Writable limit := by
  unfold ofText
  split <;> simp_all

end SizeError

/-- The records that are recognised and refused. -/
inductive Unsupported where
  /-- Data of a module that belongs to no key. -/
  | moduleAux
  /-- A function library. -/
  | functions
  /-- A key with a value of a refused kind. -/
  | value (kind : RefusedKind)
  deriving DecidableEq, Repr

/-- What an unsupported record belongs to. -/
def Unsupported.feature : Unsupported → String
  | .moduleAux => "module aux records"
  | .functions => "functions"
  | .value kind => kind.feature

/-- The text of the error that an unsupported record raises. -/
def Unsupported.message (u : Unsupported) : String :=
  let start := "Parsing " ++ u.feature ++ " is not supported"
  match u with
  | .value kind => start ++ ": value type " ++ kind.wireName
  | _ => start

/-- Why a read fails. -/
inductive ReadError where
  /-- The bytes are no snapshot. -/
  | format (e : FormatError)
  /-- A compressed string cannot be expanded. -/
  | payload (e : Lzf.Refusal)
  /-- The source ended where more bytes were needed. -/
  | truncated (consumed needed : Nat)
  /-- A record is not supported. -/
  | unsupported (u : Unsupported)
  /-- A declared size is above its limit. -/
  | tooLarge (e : SizeError)
  /-- The source did not answer. -/
  | source (e : Source.Error)
  /-- A negative number of bytes was asked for. -/
  | negativeRequest (n : Int)
  deriving DecidableEq, Repr

namespace ReadError

/-- The text of a read error. -/
def message : ReadError → String
  | format e => e.message
  | payload e => e.message
  | truncated consumed needed => s!"Snapshot ended after {consumed} bytes, {needed} more expected"
  | unsupported u => u.message
  | tooLarge e => e.message
  | source e => e.message
  | negativeRequest n => s!"Cannot read a negative number of bytes ({n})"

/-- Whether an error is a fault of the snapshot, and not of its source, of a request, of the memory
or of a limit. -/
def isFault : ReadError → Bool
  | format _ | truncated .. | unsupported _ => true
  | payload e => e.isFault
  | tooLarge e => e.isFault
  | source _ | negativeRequest _ => false

end ReadError

end RedisDump
