import RedisDump.Binary64.Nearest
import RedisDump.EntryType

/-!
# Metrics

What has been decoded is counted: entries by their type, keys by the kind of their value, bytes,
and attempts to decode packed values by their form. The version of the last snapshot opened is kept
as a double, which is exact for every version that there is. A sample shows every count that is not
zero, and the bytes and the version always.

The counts are taken to be exact. Totals that are kept as doubles, as they may be, are the same as
long as they stay below `2 ^ 53` (`Metrics.roundedTotal_of_lt`).
-/

namespace RedisDump

/-- Counts by key. -/
abbrev Tally (α : Type) := List (α × Nat)

namespace Tally

variable {α : Type} [DecidableEq α]

/-- The count of a key. -/
def count (t : Tally α) (key : α) : Nat :=
  (t.lookup key).getD 0

/-- Adds to the count of a key. -/
def add (key : α) (n : Nat) : Tally α → Tally α
  | [] => [(key, n)]
  | (k, m) :: t => if k = key then (k, m + n) :: t else (k, m) :: add key n t

theorem count_add (t : Tally α) (key other : α) (n : Nat) :
    (add key n t).count other = t.count other + if other = key then n else 0 := by
  induction t with
  | nil =>
    by_cases h : other = key
    · subst h
      simp [add, count]
    · have : (other == key) = false := by simpa using h
      simp [add, count, List.lookup_cons, this, h]
  | cons p t ih =>
    obtain ⟨k, m⟩ := p
    by_cases hk : k = key
    · subst hk
      by_cases h : other = k
      · subst h
        simp [add, count]
      · have : (other == k) = false := by simpa using h
        simp [add, count, List.lookup_cons, this, h]
    · by_cases h : other = k
      · subst h
        simp [add, count, hk]
      · have : (other == k) = false := by simpa using h
        simpa [add, count, List.lookup_cons, hk, this] using ih

end Tally

/-- The counts. -/
structure Metrics where
  /-- The bytes read up to the last entry. -/
  bytesRead : Nat := 0
  /-- The entries, by type. -/
  entries : Tally EntryType := []
  /-- The keys, by the kind of their value. -/
  keyValues : Tally ValueKind := []
  /-- The attempts to decode packed values, by form. -/
  containers : Tally String := []
  /-- The version of the last snapshot opened. -/
  version : Int := 0
  deriving DecidableEq, Repr

namespace Metrics

/-- Counts an entry and the bytes read since the one before it; a number of bytes that is not
positive counts nothing. -/
def countEntry (m : Metrics) (entry : Counted) (bytes : Int) : Metrics :=
  { m with
    bytesRead := m.bytesRead + bytes.toNat
    entries := m.entries.add entry.type 1
    keyValues :=
      match entry.kind? with
      | some kind => m.keyValues.add kind 1
      | none => m.keyValues }

/-- Counts a number of attempts to decode packed values of one form. -/
def countContainers (m : Metrics) (format : String) (attempts : Nat) : Metrics :=
  { m with containers := m.containers.add format attempts }

/-- Keeps the version of a snapshot that was opened. -/
def noteVersion (m : Metrics) (version : Int) : Metrics :=
  { m with version := version }

/-- Something that is counted. -/
inductive Event where
  /-- An entry of the given name, and the bytes read since the one before it. -/
  | entry (label : String) (bytes : Int)
  /-- An attempt to decode a packed value of the given form. -/
  | container (format : String)
  /-- The opening of a snapshot of the given version. -/
  | header (version : Int)
  deriving DecidableEq, Repr

/-- Why an event is not counted. -/
inductive Error where
  /-- There is no entry of the name. -/
  | unknownEntry (label : String)
  /-- The version has no double. -/
  | versionTooGreat
  deriving DecidableEq, Repr

/-- The text of the error of a version that has no double. -/
def versionTooGreatMessage : String :=
  "int too large to convert to float"

/-- Keeps the double nearest to a version. -/
def roundVersion (m : Metrics) (version : Int) : Except Error Metrics :=
  match Binary64.nearest? version with
  | some version => .ok (m.noteVersion version)
  | none => .error .versionTooGreat

/-- A version below `2 ^ 53` is kept as it is. -/
theorem roundVersion_of_lt (m : Metrics) {version : Int}
    (h : version.natAbs < 2 ^ Binary64.precision) :
    m.roundVersion version = .ok (m.noteVersion version) := by
  unfold roundVersion
  rw [Binary64.nearest?_of_lt h]

/-- A total that is kept as a double: every amount is added to it, and the sum is rounded. -/
def roundedTotal (total : Int) (amounts : List Nat) : Option Int :=
  amounts.foldlM (fun (total : Int) (amount : Nat) => Binary64.nearest? (total + amount)) total

/-- A total below `2 ^ 53` is kept exactly. -/
theorem roundedTotal_of_lt {total : Nat} {amounts : List Nat}
    (h : total + amounts.sum < 2 ^ Binary64.precision) :
    roundedTotal total amounts = some ((total + amounts.sum : Nat) : Int) := by
  induction amounts generalizing total with
  | nil => rfl
  | cons amount amounts ih =>
    rw [List.sum_cons, ← Nat.add_assoc] at h
    have hsum : ((total : Int) + amount).natAbs < 2 ^ Binary64.precision := by omega
    have hrest := ih h
    rw [List.sum_cons, ← Nat.add_assoc, ← hrest, Int.natCast_add]
    rw [roundedTotal, List.foldlM_cons, Binary64.nearest?_of_lt hsum]
    rfl

/-- The counts after an event. -/
def note (m : Metrics) : Event → Except Error Metrics
  | .entry label bytes =>
    match Counted.ofLabel? label with
    | some entry => .ok (m.countEntry entry bytes)
    | none => .error (.unknownEntry label)
  | .container format => .ok (m.countContainers format 1)
  | .header version => m.roundVersion version

/-- The counts after a series of events, up to the first that is not counted. -/
def noteAll (m : Metrics) (events : List Event) : Except Error Metrics :=
  events.foldlM note m

/-- A count as it is shown. -/
inductive Sample where
  | bytesRead (n : Nat)
  | containers (format : String) (n : Nat)
  | entries (type : String) (n : Nat)
  | keyValues (kind : String) (n : Nat)
  | version (n : Int)
  deriving DecidableEq, Repr

/-- The counts that are not zero, by ascending label. -/
def labelled {α : Type} (label : α → String) (t : Tally α) : List (String × Nat) :=
  let shown := (t.filter fun p => p.2 != 0).map fun p => (label p.1, p.2)
  shown.mergeSort fun a b => decide (a.1 ≤ b.1)

/-- What the counts show: the bytes, the labelled counts and the version. -/
def samples (m : Metrics) : List Sample :=
  .bytesRead m.bytesRead ::
    ((labelled id m.containers).map fun p => .containers p.1 p.2) ++
    ((labelled EntryType.label m.entries).map fun p => .entries p.1 p.2) ++
    ((labelled ValueKind.label m.keyValues).map fun p => .keyValues p.1 p.2) ++
    [.version m.version]

end Metrics

end RedisDump
