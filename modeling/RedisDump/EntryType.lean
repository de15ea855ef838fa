import RedisDump.ValueKind

/-!
# Types of entries

A snapshot has entries of five types. For counting, an entry is its type and, when it is a key,
the kind of its value.
-/

namespace RedisDump

/-- The types of entries. -/
inductive EntryType where
  | eof
  | selectDb
  | resizeDb
  | aux
  | keyValue
  deriving DecidableEq, Repr

/-- The name of a type of entries. -/
def EntryType.label : EntryType → String
  | eof => "eof"
  | selectDb => "select_db"
  | resizeDb => "resize_db"
  | aux => "aux"
  | keyValue => "key_value_pair"

/-- The name of the entries of a type in messages. -/
def EntryType.recordName : EntryType → String
  | eof => "Eof"
  | selectDb => "SelectDb"
  | resizeDb => "ResizeDb"
  | aux => "AuxField"
  | keyValue => "KeyValuePair"

/-- An entry as far as it is counted: its type, and the kind of the value of a key. -/
inductive Counted where
  | eof
  | selectDb
  | resizeDb
  | aux
  | keyValue (kind : ValueKind)
  deriving DecidableEq, Repr

namespace Counted

/-- The type of a counted entry. -/
def type : Counted → EntryType
  | eof => .eof
  | selectDb => .selectDb
  | resizeDb => .resizeDb
  | aux => .aux
  | keyValue _ => .keyValue

/-- The kind of value of a counted entry. -/
def kind? : Counted → Option ValueKind
  | keyValue kind => some kind
  | _ => none

/-- The counted entry with the given name: that of an entry type without a value, or that of a
kind of value. -/
def ofLabel? (text : String) : Option Counted :=
  match [eof, selectDb, resizeDb, aux].find? fun c => c.type.label == text with
  | some c => some c
  | none => (ValueKind.ofLabel? text).map keyValue

end Counted

end RedisDump
