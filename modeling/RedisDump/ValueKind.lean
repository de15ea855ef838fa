/-!
# Kinds of values

A key's record starts with a byte for the kind of its value. Sixteen kinds are decoded
(`ValueKind`); nine more are known by name only and always refused (`RefusedKind`).
-/

namespace RedisDump

/-- The kinds of values that are decoded. -/
inductive ValueKind where
  /-- A single string. -/
  | string
  /-- A list, element by element. -/
  | list
  /-- A set, member by member. -/
  | set
  /-- A sorted set with scores as text. -/
  | sortedSet
  /-- A sorted set with scores as binary doubles. -/
  | sortedSet2
  /-- A hash, field by field. -/
  | hash
  /-- A hash packed as a zipmap. -/
  | hashZipmap
  /-- A list packed as a ziplist. -/
  | listZiplist
  /-- A set of integers packed as an intset. -/
  | setIntset
  /-- A sorted set packed as a ziplist. -/
  | sortedSetZiplist
  /-- A hash packed as a ziplist. -/
  | hashZiplist
  /-- A list split into ziplists. -/
  | listQuicklist
  /-- A list split into listpacks and plain elements. -/
  | listQuicklist2
  /-- A set packed as a listpack. -/
  | setListpack
  /-- A hash packed as a listpack. -/
  | hashListpack
  /-- A sorted set packed as a listpack. -/
  | sortedSetListpack
  deriving DecidableEq, Repr

namespace ValueKind

/-- Every kind that is decoded. -/
def all : List ValueKind :=
  [string, list, set, sortedSet, sortedSet2, hash, hashZipmap, listZiplist, setIntset,
    sortedSetZiplist, hashZiplist, listQuicklist, listQuicklist2, setListpack, hashListpack,
    sortedSetListpack]

/-- The byte that announces a value of the kind. -/
def code : ValueKind → UInt8
  | string => 0
  | list => 1
  | set => 2
  | sortedSet => 3
  | hash => 4
  | sortedSet2 => 5
  | hashZipmap => 9
  | listZiplist => 10
  | setIntset => 11
  | sortedSetZiplist => 12
  | hashZiplist => 13
  | listQuicklist => 14
  | hashListpack => 16
  | sortedSetListpack => 17
  | listQuicklist2 => 18
  | setListpack => 20

/-- The name of a kind in messages. -/
def wireName : ValueKind → String
  | string => "STRING"
  | list => "LIST"
  | set => "SET"
  | sortedSet => "ZSET"
  | hash => "HASH"
  | sortedSet2 => "ZSET_2"
  | hashZipmap => "HASH_ZIPMAP"
  | listZiplist => "LIST_ZIPLIST"
  | setIntset => "SET_INTSET"
  | sortedSetZiplist => "ZSET_ZIPLIST"
  | hashZiplist => "HASH_ZIPLIST"
  | listQuicklist => "LIST_QUICKLIST"
  | hashListpack => "HASH_LISTPACK"
  | sortedSetListpack => "ZSET_LISTPACK"
  | listQuicklist2 => "LIST_QUICKLIST_2"
  | setListpack => "SET_LISTPACK"

/-- The name of a kind in entries and tallies. -/
def label : ValueKind → String
  | string => "value"
  | list => "list"
  | set => "set"
  | sortedSet => "sorted_set"
  | sortedSet2 => "sorted_set2"
  | hash => "hash"
  | hashZipmap => "zipmap"
  | listZiplist => "ziplist"
  | setIntset => "intset"
  | sortedSetZiplist => "sorted_set_as_ziplist"
  | hashZiplist => "hashmap_as_ziplist"
  | listQuicklist => "quicklist"
  | listQuicklist2 => "quicklist2"
  | setListpack => "listpack"
  | hashListpack => "hashmap_as_listpack"
  | sortedSetListpack => "sorted_set_as_listpack"

/-- The format version in which a kind first appeared. -/
def since : ValueKind → Nat
  | string | list | set | sortedSet => 1
  | hash | hashZipmap | listZiplist | setIntset | sortedSetZiplist => 2
  | hashZiplist => 4
  | listQuicklist => 7
  | sortedSet2 => 8
  | hashListpack | sortedSetListpack | listQuicklist2 => 10
  | setListpack => 11

/-- Whether the flat list of a value alternates between keys and values, or between members and
scores. -/
def isPaired : ValueKind → Bool
  | sortedSet | sortedSet2 | hash | hashZipmap | sortedSetZiplist | hashZiplist | hashListpack
  | sortedSetListpack => true
  | string | list | set | listZiplist | setIntset | listQuicklist | listQuicklist2
  | setListpack => false

/-- The kind with the given label. -/
def ofLabel? (text : String) : Option ValueKind :=
  all.find? fun kind => kind.label == text

end ValueKind

/-- The kinds of values that are recognised and refused. -/
inductive RefusedKind where
  | modulePreGa
  | module2
  | streamListpacks
  | streamListpacks2
  | streamListpacks3
  | hashMetadataPreGa
  | hashListpackExPreGa
  | hashMetadata
  | hashListpackEx
  deriving DecidableEq, Repr

namespace RefusedKind

/-- Every kind that is refused. -/
def all : List RefusedKind :=
  [modulePreGa, module2, streamListpacks, streamListpacks2, streamListpacks3, hashMetadataPreGa,
    hashListpackExPreGa, hashMetadata, hashListpackEx]

/-- The byte that announces a value of the kind. -/
def code : RefusedKind → UInt8
  | modulePreGa => 6
  | module2 => 7
  | streamListpacks => 15
  | streamListpacks2 => 19
  | streamListpacks3 => 21
  | hashMetadataPreGa => 22
  | hashListpackExPreGa => 23
  | hashMetadata => 24
  | hashListpackEx => 25

/-- The name of a kind in messages. -/
def wireName : RefusedKind → String
  | modulePreGa => "MODULE_PRE_GA"
  | module2 => "MODULE_2"
  | streamListpacks => "STREAM_LISTPACKS"
  | streamListpacks2 => "STREAM_LISTPACKS_2"
  | streamListpacks3 => "STREAM_LISTPACKS_3"
  | hashMetadataPreGa => "HASH_METADATA_PRE_GA"
  | hashListpackExPreGa => "HASH_LISTPACK_EX_PRE_GA"
  | hashMetadata => "HASH_METADATA"
  | hashListpackEx => "HASH_LISTPACK_EX"

/-- The format version in which a kind first appeared. -/
def since : RefusedKind → Nat
  | modulePreGa => 8
  | module2 | streamListpacks => 9
  | streamListpacks2 => 10
  | streamListpacks3 => 11
  | hashMetadataPreGa | hashListpackExPreGa | hashMetadata | hashListpackEx => 12

/-- What a kind belongs to. -/
def feature : RefusedKind → String
  | modulePreGa | module2 => "module values"
  | streamListpacks | streamListpacks2 | streamListpacks3 => "streams"
  | hashMetadataPreGa | hashListpackExPreGa | hashMetadata | hashListpackEx =>
    "hash field expiration"

end RefusedKind

/-- What the byte before a key announces. -/
inductive ValueCode where
  /-- A value that is decoded. -/
  | known (kind : ValueKind)
  /-- A value that is refused. -/
  | refused (kind : RefusedKind)
  deriving DecidableEq, Repr

namespace ValueCode

/-- The meaning of the byte before a key. -/
def ofByte? (b : UInt8) : Option ValueCode :=
  match ValueKind.all.find? fun kind => kind.code == b with
  | some kind => some (.known kind)
  | none => (RefusedKind.all.find? fun kind => kind.code == b).map .refused

/-- The name of a kind in messages. -/
def wireName : ValueCode → String
  | known kind => kind.wireName
  | refused kind => kind.wireName

/-- The format version in which a kind first appeared. -/
def since : ValueCode → Nat
  | known kind => kind.since
  | refused kind => kind.since

/-- What a refused kind belongs to. -/
def refusedFeature? : ValueCode → Option String
  | known _ => none
  | refused kind => some kind.feature

end ValueCode

/-- Every decoded kind is found by its byte. -/
theorem ValueCode.ofByte?_known (kind : ValueKind) :
    ValueCode.ofByte? kind.code = some (.known kind) := by
  cases kind <;> decide

/-- Every refused kind is found by its byte. -/
theorem ValueCode.ofByte?_refused (kind : RefusedKind) :
    ValueCode.ofByte? kind.code = some (.refused kind) := by
  cases kind <;> decide

end RedisDump
