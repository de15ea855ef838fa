import RedisDump.Deferred
import RedisDump.Metrics

/-!
# Entries

A snapshot is a sequence of entries: information fields, database selections, size hints, keys
with their values, and the end with its checksum. The elements of a key's value are a deferred
list.

Two entries are equal when they are of the same type and their fields are, in their order; the
comparison stops at the first difference, so the elements of two keys are needed only when the
keys and the kinds of their values agree. The hash of an entry leaves the elements out
(`Entry.bare`). How it is made of the other fields is left open (`Hashing`), and different fields
may have the same hash.
-/

namespace RedisDump

/-- The fields of a key other than the elements of its value. -/
structure KeyFields where
  /-- The key. -/
  key : Bytes
  /-- The kind of its value. -/
  kind : ValueKind
  /-- The time at which it expires, in milliseconds. -/
  expireTimeMs? : Option Int := none
  /-- The time for which it has not been used, in seconds. -/
  idleSeconds? : Option Int := none
  /-- How frequently it is used. -/
  freq? : Option UInt8 := none
  deriving DecidableEq, Repr

/-- Whether a key expires. -/
def KeyFields.hasExpiry (k : KeyFields) : Bool :=
  k.expireTimeMs?.isSome

/-- An entry of a snapshot, whose values are captured as a `δ`. -/
inductive Entry (δ : Type) where
  /-- The end of the snapshot. -/
  | eof (checksum : Bytes)
  /-- The database that the following keys belong to. -/
  | selectDb (id : Nat)
  /-- The sizes of the current database's tables. -/
  | resizeDb (size expireSize : Nat)
  /-- A field of information about the snapshot. -/
  | aux (key value : Bytes)
  /-- A key with its value. -/
  | keyValue (fields : KeyFields) (values : Deferred δ)
  deriving DecidableEq, Repr

/-- The number of bytes of a checksum. -/
def checksumWidth : Nat := 8

namespace Entry

variable {δ ε : Type}

/-- An entry as far as it is counted. -/
def counted : Entry δ → Counted
  | eof _ => .eof
  | selectDb _ => .selectDb
  | resizeDb .. => .resizeDb
  | aux .. => .aux
  | keyValue fields _ => .keyValue fields.kind

/-- The type of an entry. -/
def type (e : Entry δ) : EntryType :=
  e.counted.type

/-- The elements of a key's value. -/
def values? : Entry δ → Option (Deferred δ)
  | keyValue _ values => some values
  | _ => none

/-- An entry with other elements, if it has elements. -/
def withValues (values : Deferred δ) : Entry δ → Entry δ
  | keyValue fields _ => keyValue fields values
  | e => e

/-- The elements of an entry, if it is a key, and the entry after they have been decoded. -/
def forceValues [Decodable δ ε] : Entry δ → Option (Except ε (List Bytes)) × Entry δ
  | keyValue fields values =>
    let (answer, values) := values.force
    (some answer, keyValue fields values)
  | e => (none, e)

/-- An entry without the elements of its value. -/
def bare : Entry δ → Entry Empty
  | eof checksum => eof checksum
  | selectDb id => selectDb id
  | resizeDb size expireSize => resizeDb size expireSize
  | aux key value => aux key value
  | keyValue fields _ => keyValue fields (.ofElements [])

/-- Whether two entries agree but for the elements of their values. -/
def sameFields (e e' : Entry δ) : Bool :=
  decide (e.bare = e'.bare)

end Entry

/-- How entries are hashed. -/
structure Hashing where
  /-- The hashes. -/
  Code : Type
  [decidable : DecidableEq Code]
  /-- The hash of an entry without its elements. -/
  code : Entry Empty → Code

/-- The hashing under which only the same fields have the same hash. -/
def Hashing.exact : Hashing :=
  { Code := Entry Empty, code := id }

namespace Entry

variable {δ ε : Type}

/-- Whether two entries have the same hash. -/
def sameHash (e e' : Entry δ) (hashing : Hashing := .exact) : Bool :=
  @decide (hashing.code e.bare = hashing.code e'.bare) (hashing.decidable _ _)

/-- Whether two entries are equal, and the entries after the comparison. -/
def compare [Decodable δ ε] : Entry δ → Entry δ → Except ε Bool × Entry δ × Entry δ
  | keyValue f v, keyValue f' v' =>
    if f.key = f'.key ∧ f.kind = f'.kind then
      match v.force with
      | (.error e, v) => (.error e, keyValue f v, keyValue f' v')
      | (.ok xs, v) =>
        match v'.force with
        | (.error e, v') => (.error e, keyValue f v, keyValue f' v')
        | (.ok xs', v') => (.ok (xs == xs' && f == f'), keyValue f v, keyValue f' v')
    else (.ok false, keyValue f v, keyValue f' v')
  | e, e' => (.ok (e.sameFields e'), e, e')

end Entry

end RedisDump
