import RedisDump.Entry

/-!
# Drafts of entries

An entry can be made from loose fields, each of which may be left out or be of the wrong sort.
Every field is checked, and an entry comes out only when all of them are in order; otherwise the
complaints about all of them do, in the order of the fields.
-/

namespace RedisDump

/-- A field before it is checked. -/
inductive Loose (δ : Type) where
  | absent
  | null
  | integer (n : Int)
  | bytes (bs : Bytes)
  | text (s : String)
  | list (values : Deferred δ)
  /-- Something that no field accepts. -/
  | other
  deriving DecidableEq, Repr

/-- What is wrong with a field. -/
inductive Complaint where
  | missing
  | notBytes
  | notInteger
  | tooShort
  | tooLong
  | belowLeast
  | aboveGreatest
  | notAChoice
  | notAList
  | frozen
  deriving DecidableEq, Repr

/-- The complaints about the fields of an entry, by the name of the field. -/
abbrev Complaints := List (String × Complaint)

namespace Loose

variable {δ : Type}

/-- A byte string, whatever its length. -/
def asBytes : Loose δ → Except Complaint Bytes
  | absent => .error .missing
  | bytes bs => .ok bs
  | _ => .error .notBytes

/-- A checksum. -/
def asChecksum (v : Loose δ) : Except Complaint Bytes := do
  let bs ← v.asBytes
  if bs.length < checksumWidth then throw .tooShort
  if checksumWidth < bs.length then throw .tooLong
  return bs

/-- An integer from zero up. -/
def asNat : Loose δ → Except Complaint Nat
  | absent => .error .missing
  | integer (.ofNat n) => .ok n
  | integer (.negSucc _) => .error .belowLeast
  | _ => .error .notInteger

/-- An integer that may be left out. -/
def asInt? : Loose δ → Except Complaint (Option Int)
  | absent | null => .ok none
  | integer n => .ok (some n)
  | _ => .error .notInteger

/-- An integer from 0 to 255 that may be left out. -/
def asByte? : Loose δ → Except Complaint (Option UInt8)
  | absent | null => .ok none
  | integer n =>
    if n < 0 then .error .belowLeast
    else if 255 < n then .error .aboveGreatest
    else .ok (some (UInt8.ofNat n.toNat))
  | _ => .error .notInteger

/-- A kind of value, by its label. -/
def asKind : Loose δ → Except Complaint ValueKind
  | absent => .error .missing
  | text s =>
    match ValueKind.ofLabel? s with
    | some kind => .ok kind
    | none => .error .notAChoice
  | _ => .error .notAChoice

/-- A deferred list. -/
def asList : Loose δ → Except Complaint (Deferred δ)
  | absent => .error .missing
  | list values => .ok values
  | _ => .error .notAList

end Loose

/-- A result of checks, or all their complaints. -/
abbrev Checked (α : Type) := Except Complaints α

namespace Checked

variable {α β : Type}

/-- The check of one field. -/
def field (name : String) (r : Except Complaint α) : Checked α :=
  r.mapError fun c => [(name, c)]

/-- A result of checks, changed by a function. -/
def map (f : α → β) (x : Checked α) : Checked β :=
  Except.map f x

/-- Goes on with a further check, keeping the complaints of both. -/
def also (f : Checked (α → β)) (x : Checked α) : Checked β :=
  match f, x with
  | .ok f, .ok x => .ok (f x)
  | .ok _, .error later => .error later
  | .error first, .ok _ => .error first
  | .error first, .error later => .error (first ++ later)

end Checked

/-- The loose fields of an entry of each type. -/
inductive Draft (δ : Type) where
  | eof (checksum : Loose δ)
  | selectDb (id : Loose δ)
  | resizeDb (size expireSize : Loose δ)
  | aux (key value : Loose δ)
  | keyValue (key kind values expireTimeMs idleSeconds freq : Loose δ)
  deriving DecidableEq, Repr

/-- The entry of a draft, or the complaints about its fields. -/
def Draft.check {δ : Type} : Draft δ → Checked (Entry δ)
  | eof checksum => (Checked.field "checksum" checksum.asChecksum).map .eof
  | selectDb id => (Checked.field "id" id.asNat).map .selectDb
  | resizeDb size expireSize =>
    ((Checked.field "db_size" size.asNat).map Entry.resizeDb).also
      (Checked.field "expire_size" expireSize.asNat)
  | aux key value =>
    ((Checked.field "key" key.asBytes).map Entry.aux).also (Checked.field "value" value.asBytes)
  | keyValue key kind values expireTimeMs idleSeconds freq =>
    let make (key : Bytes) (kind : ValueKind) (values : Deferred δ) (expireTimeMs? : Option Int)
        (idleSeconds? : Option Int) (freq? : Option UInt8) : Entry δ :=
      .keyValue { key, kind, expireTimeMs?, idleSeconds?, freq? } values
    (Checked.field "key" key.asBytes).map make
      |>.also (Checked.field "value_type" kind.asKind)
      |>.also (Checked.field "lazy_values" values.asList)
      |>.also (Checked.field "expire_time_ms" expireTimeMs.asInt?)
      |>.also (Checked.field "idle_seconds" idleSeconds.asInt?)
      |>.also (Checked.field "freq" freq.asByte?)

end RedisDump
