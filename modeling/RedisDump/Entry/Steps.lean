import RedisDump.Deferred.Steps
import RedisDump.Entry.Draft

/-!
# Using entries step by step

The questions that can be asked of a row of entries, as data. A question that needs the elements
of a key leaves them realized for the next one; no question changes anything else, and assigning
to a field is always refused.
-/

namespace RedisDump.Entry

/-- A question to a row of entries, which are named by their positions. -/
inductive Step where
  /-- The entry itself. -/
  | entry (i : Int)
  /-- The elements of a key. -/
  | values (i : Int)
  /-- A question to the list of a key's elements. -/
  | list (i : Int) (q : Deferred.Step)
  /-- Whether two entries are equal. -/
  | equals (i j : Int)
  /-- Whether the hashes of two entries are equal. -/
  | sameHash (i j : Int)
  /-- Assignment to a field of an entry. -/
  | assign (i : Int) (field : String)
  deriving DecidableEq, Repr

/-- The answer to a question. -/
inductive Answer (δ : Type) where
  | entry (e : Entry δ)
  | values (a : Deferred.Answer δ)
  | truth (b : Bool)
  deriving DecidableEq, Repr

/-- Why a question has no answer. -/
inductive Error (ε : Type) where
  /-- There is no entry at the position. -/
  | position (e : Position.Error)
  /-- Entries of the type have no such field. -/
  | noField (type : EntryType) (field : String)
  /-- The list of elements has no answer. -/
  | values (e : Deferred.Error ε)
  /-- Fields are not as they should be. -/
  | invalid (complaints : Complaints)
  deriving DecidableEq, Repr

/-- The text of an error. Complaints are shown one by one and not as a text. -/
def Error.message {ε : Type} (text : ε → String) : Error ε → String
  | .position e => e.message "list"
  | .noField type field =>
    let name := type.recordName
    s!"'{name}' object has no attribute '{field}'"
  | .values e => e.message text
  | .invalid _ => ""

variable {δ ε : Type}

/-- The field of a key that holds its elements. -/
def valuesField : String := "values"

/-- The field of a key that holds the list of its elements. -/
def listField : String := "lazy_values"

/-- Goes on with the place that a position in a row names. -/
def atPosition (entries : Array (Entry δ)) (i : Int)
    (go : Fin entries.size → Except (Error ε) (Answer δ) × Array (Entry δ)) :
    Except (Error ε) (Answer δ) × Array (Entry δ) :=
  match Position.place entries.size i with
  | .ok p => go p
  | .error e => (.error (.position e), entries)

/-- The answer of a question to the elements of the entry at a place, which are looked for in
the given field. -/
def askValues [Decodable δ ε] (entries : Array (Entry δ)) (p : Fin entries.size)
    (field : String) (q : Deferred.Step) :
    Except (Error ε) (Answer δ) × Array (Entry δ) :=
  match entries[p].values? with
  | none => (.error (.noField entries[p].type field), entries)
  | some values =>
    let (answer, values) := values.step q
    ((answer.map .values).mapError .values, entries.set p (entries[p].withValues values))

/-- Whether the entries at two places are equal. An entry equals itself without a look at its
elements. -/
def askEquals [Decodable δ ε] (entries : Array (Entry δ)) (p q : Fin entries.size) :
    Except (Error ε) (Answer δ) × Array (Entry δ) :=
  if p = q then (.ok (.truth true), entries)
  else
    let (answer, e, e') := entries[p].compare entries[q]
    ((answer.map .truth).mapError fun error => .values (.decoding error),
      (entries.setIfInBounds p e).setIfInBounds q e')

/-- Asks a row of entries a question. -/
def step [Decodable δ ε] (entries : Array (Entry δ)) (q : Step) (hashing : Hashing := .exact) :
    Except (Error ε) (Answer δ) × Array (Entry δ) :=
  match q with
  | .entry i => atPosition entries i fun p => (.ok (.entry entries[p]), entries)
  | .values i => atPosition entries i fun p => askValues entries p valuesField .get
  | .list i q => atPosition entries i fun p => askValues entries p listField q
  | .equals i j =>
    atPosition entries i fun p => atPosition entries j fun q => askEquals entries p q
  | .sameHash i j =>
    atPosition entries i fun p => atPosition entries j fun q =>
      (.ok (.truth (entries[p].sameHash entries[q] hashing)), entries)
  | .assign i field =>
    atPosition entries i fun _ => (.error (.invalid [(field, .frozen)]), entries)

/-- Adds the entry of a draft to a row, if its fields are in order. -/
def make (draft : Draft δ) (entries : Array (Entry δ)) :
    Except (Error ε) (Answer δ) × Array (Entry δ) :=
  match draft.check with
  | .ok e => (.ok (.entry e), entries.push e)
  | .error complaints => (.error (.invalid complaints), entries)

end RedisDump.Entry
