/-!
# Opcodes

A record that is not a key with its value starts with one of eleven opcodes, from `0xF5` up.
Each has been part of the format since some version of it.
-/

namespace RedisDump

/-- The opcodes, in ascending order of their bytes. -/
inductive Opcode where
  /-- A function library. -/
  | function2
  /-- A function library as written before the first release that had them. -/
  | functionPreGa
  /-- Data of a module that belongs to no key. -/
  | moduleAux
  /-- The idle time of the next key. -/
  | idle
  /-- The access frequency of the next key. -/
  | freq
  /-- A field of information about the snapshot. -/
  | aux
  /-- The sizes of the current database's tables. -/
  | resizeDb
  /-- The expiry of the next key in milliseconds. -/
  | expireTimeMs
  /-- The expiry of the next key in seconds. -/
  | expireTime
  /-- The database that the following keys belong to. -/
  | selectDb
  /-- The end of the snapshot. -/
  | eof
  deriving DecidableEq, Repr

namespace Opcode

/-- Every opcode, in ascending order of their bytes. -/
def all : List Opcode :=
  [function2, functionPreGa, moduleAux, idle, freq, aux, resizeDb, expireTimeMs, expireTime,
    selectDb, eof]

/-- The byte of an opcode. -/
def code : Opcode → UInt8
  | function2 => 0xF5
  | functionPreGa => 0xF6
  | moduleAux => 0xF7
  | idle => 0xF8
  | freq => 0xF9
  | aux => 0xFA
  | resizeDb => 0xFB
  | expireTimeMs => 0xFC
  | expireTime => 0xFD
  | selectDb => 0xFE
  | eof => 0xFF

/-- The name of an opcode in messages. -/
def label : Opcode → String
  | function2 => "FUNCTION2"
  | functionPreGa => "FUNCTION_PRE_GA"
  | moduleAux => "MODULE_AUX"
  | idle => "IDLE"
  | freq => "FREQ"
  | aux => "AUX"
  | resizeDb => "RESIZEDB"
  | expireTimeMs => "EXPIRETIME_MS"
  | expireTime => "EXPIRETIME"
  | selectDb => "SELECTDB"
  | eof => "EOF"

/-- The format version in which an opcode first appeared. -/
def since : Opcode → Nat
  | function2 => 10
  | functionPreGa => 10
  | moduleAux => 9
  | idle => 9
  | freq => 9
  | aux => 7
  | resizeDb => 7
  | expireTimeMs => 3
  | expireTime => 1
  | selectDb => 1
  | eof => 1

/-- The opcode with the given byte. -/
def ofByte? (b : UInt8) : Option Opcode :=
  all.find? fun op => op.code == b

/-- Every opcode is found by its byte. -/
theorem ofByte?_code (op : Opcode) : ofByte? op.code = some op := by
  cases op <;> decide

end Opcode

end RedisDump
