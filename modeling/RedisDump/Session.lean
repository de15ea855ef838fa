import RedisDump.Snapshot.Header
import RedisDump.Snapshot.Record

/-!
# Sessions

A session reads one snapshot from a source, entry by entry. It is fresh until the header is
accepted, ready while entries are to come, exhausted after the end of the snapshot, failed after
a fault of the snapshot, and closed from the first call of `close` on. Only a fresh or ready
session reads anything. A failure of the source itself changes no phase: bytes already taken
stay taken, noted metadata stays noted, and the next read starts afresh.

The session keeps the entries that it has delivered, counts them, and writes a log of the
events in its life. Attempts to decode packed values are counted by the entries themselves.
-/

namespace RedisDump

/-- How far the reading of a snapshot has come, with the version of the snapshot once its header
has been accepted. -/
inductive Phase where
  | fresh
  | ready (version : Nat)
  | exhausted (version : Nat)
  | failed (version? : Option Nat)
  | closed (version? : Option Nat)
  deriving DecidableEq, Repr

namespace Phase

/-- The version of the snapshot, once its header has been accepted. -/
def version? : Phase → Option Nat
  | fresh => none
  | ready version | exhausted version => some version
  | failed version? | closed version? => version?

/-- The name of a phase. -/
def label : Phase → String
  | fresh => "uninitialized"
  | ready _ => "ready"
  | exhausted _ => "exhausted"
  | failed _ => "failed"
  | closed _ => "closed"

/-- Whether a session has been closed. -/
def isClosed : Phase → Bool
  | closed _ => true
  | _ => false

end Phase

/-- An event in the life of a session. -/
inductive LogEvent where
  /-- The header was accepted. -/
  | opened (version : Nat)
  /-- The end of the snapshot was read. -/
  | reachedEnd (bytes : Nat)
  /-- The session was closed. -/
  | closed (bytes : Nat)
  deriving DecidableEq, Repr

/-- The text of a log event. -/
def LogEvent.message : LogEvent → String
  | .opened version => s!"Opened snapshot with format version {version}"
  | .reachedEnd bytes => s!"Reached end of snapshot after {bytes} bytes"
  | .closed bytes => s!"Closed snapshot parser after {bytes} bytes"

/-- The reading of one snapshot. -/
structure Session where
  /-- What is accepted of the snapshot. -/
  profile : Profile
  /-- The place in the snapshot, and the notes for the next key. -/
  intake : Intake
  /-- How far the reading has come. -/
  phase : Phase := .fresh
  /-- The bytes that have been counted with entries. -/
  counted : Nat := 0
  /-- The entries delivered so far. -/
  entries : Array (Entry Packed) := #[]
  /-- The counts, without the attempts to decode packed values. -/
  tallies : Metrics := {}
  /-- The events so far. -/
  log : Array LogEvent := #[]

namespace Session

/-- Why a session delivers nothing. -/
inductive Error where
  /-- The session has been closed. -/
  | closed
  /-- The session has met a fault before. -/
  | failed
  /-- Reading failed. -/
  | reading (e : ReadError)
  deriving DecidableEq, Repr

/-- The text of a session's error. -/
def Error.message : Error → String
  | .closed => "Parser is closed"
  | .failed => "Parser hit a decode error earlier and cannot resume"
  | .reading e => e.message

/-- A session over a source, of which nothing has been read. -/
def start (profile : Profile) (source : Source) : Session :=
  { profile, intake := { input := { source, bufferSize := profile.bufferSize } } }

/-- The number of bytes read. -/
def bytesRead (s : Session) : Nat :=
  s.intake.input.consumed

/-- How often the source has been closed. -/
def closeCalls (s : Session) : Nat :=
  s.intake.input.source.closeCalls

/-- The number of bytes that can still be read. -/
def remaining (s : Session) : Nat :=
  s.intake.remaining

/-- The session after reading has failed: a fault of the snapshot is final. -/
def fail (s : Session) (e : ReadError) : Session :=
  if e.isFault then { s with phase := .failed s.phase.version? } else s

/-- The session after the header has been accepted. -/
def accept (s : Session) (version : Nat) : Session :=
  { s with
    phase := .ready version
    tallies := s.tallies.noteVersion version
    log := s.log.push (.opened version) }

/-- The session after an entry has been read: it is exhausted when that was the end. -/
def advance (s : Session) (version : Nat) : Entry Packed → Session
  | .eof _ => { s with phase := .exhausted version, log := s.log.push (.reachedEnd s.bytesRead) }
  | _ => s

/-- The session after an entry has been delivered and counted. -/
def deliver (s : Session) (e : Entry Packed) : Session :=
  { s with
    counted := s.bytesRead
    entries := s.entries.push e
    tallies := s.tallies.countEntry e.counted (s.bytesRead - s.counted : Int) }

/-- Reads the header. -/
def openSnapshot (s : Session) : Except Error Nat × Session :=
  match ReadRecord.fromInput (Read.header s.profile) s.intake with
  | .ok version intake => (.ok version, ({ s with intake := intake } : Session).accept version)
  | .error e intake => (.error (.reading e), ({ s with intake := intake } : Session).fail e)

/-- Reads the next entry of a snapshot of the given version. -/
def readEntry (s : Session) (version : Nat) : Except Error (Option (Entry Packed)) × Session :=
  match ReadRecord.entry s.profile version s.intake with
  | .ok e intake =>
    (.ok (some e), (({ s with intake := intake } : Session).advance version e).deliver e)
  | .error e intake => (.error (.reading e), ({ s with intake := intake } : Session).fail e)

/-- The next entry, or nothing after the end of the snapshot. -/
def next (s : Session) : Except Error (Option (Entry Packed)) × Session :=
  match s.phase with
  | .closed _ => (.error .closed, s)
  | .failed _ => (.error .failed, s)
  | .exhausted _ => (.ok none, s)
  | .ready version => s.readEntry version
  | .fresh =>
    match s.openSnapshot with
    | (.ok version, s) => s.readEntry version
    | (.error e, s) => (.error e, s)

/-- Closes the session and, the first time, its source. -/
def close (s : Session) : Session :=
  if s.phase.isClosed then s
  else
    { s with
      phase := .closed s.phase.version?
      intake := { s.intake with input := s.intake.input.close }
      log := s.log.push (.closed s.bytesRead) }

/-- The counts with the attempts to decode the values of an entry. -/
def countAttempts (m : Metrics) (e : Entry Packed) : Metrics :=
  match e.values? with
  | some values =>
    match values.captured? with
    | some packed => m.countContainers packed.format values.attempts
    | none => m
  | none => m

/-- All counts. -/
def metrics (s : Session) : Metrics :=
  s.entries.foldl countAttempts s.tallies

theorem remaining_readEntry {s s' : Session} {version : Nat} {e : Entry Packed}
    (h : s.readEntry version = (.ok (some e), s')) : s'.remaining < s.remaining := by
  unfold readEntry at h
  split at h
  · rename_i hr
    cases h
    have := ReadRecord.entry_eager _ _ _ _ _ hr
    cases e <;> exact this
  · cases h

theorem remaining_openSnapshot {s s' : Session} {version : Nat}
    (h : s.openSnapshot = (.ok version, s')) : s'.remaining ≤ s.remaining := by
  unfold openSnapshot at h
  split at h
  · rename_i hr
    cases h
    exact ReadRecord.steady_fromInput (Read.header_steady s.profile) _ _ _ hr
  · cases h

/-- Every entry takes at least one byte of the source. -/
theorem remaining_next {s s' : Session} {e : Entry Packed}
    (h : s.next = (.ok (some e), s')) : s'.remaining < s.remaining := by
  unfold next at h
  split at h
  · cases h
  · cases h
  · cases h
  · exact remaining_readEntry h
  · split at h
    · rename_i ho
      exact Nat.lt_of_lt_of_le (remaining_readEntry h) (remaining_openSnapshot ho)
    · cases h

theorem openSnapshot_of_ok {s : Session} {version : Nat} {intake : Intake}
    (h : ReadRecord.fromInput (Read.header s.profile) s.intake = .ok version intake) :
    s.openSnapshot = (.ok version, ({ s with intake := intake } : Session).accept version) := by
  simp only [openSnapshot, h]

theorem openSnapshot_of_error {s : Session} {e : ReadError} {intake : Intake}
    (h : ReadRecord.fromInput (Read.header s.profile) s.intake = .error e intake) :
    s.openSnapshot = (.error (.reading e), ({ s with intake := intake } : Session).fail e) := by
  simp only [openSnapshot, h]

theorem phase_of_openSnapshot {s s' : Session} {version : Nat}
    (h : s.openSnapshot = (.ok version, s')) : s'.phase = .ready version := by
  unfold openSnapshot at h
  split at h
  · cases h
    rfl
  · cases h

theorem readEntry_of_ok {s : Session} {version : Nat} {e : Entry Packed} {intake : Intake}
    (h : ReadRecord.entry s.profile version s.intake = .ok e intake) :
    s.readEntry version =
      (.ok (some e), (({ s with intake := intake } : Session).advance version e).deliver e) := by
  simp only [readEntry, h]

theorem readEntry_of_error {s : Session} {version : Nat} {e : ReadError} {intake : Intake}
    (h : ReadRecord.entry s.profile version s.intake = .error e intake) :
    s.readEntry version =
      (.error (.reading e), ({ s with intake := intake } : Session).fail e) := by
  simp only [readEntry, h]

theorem next_of_ready {s : Session} {version : Nat} (h : s.phase = .ready version) :
    s.next = s.readEntry version := by
  simp only [next, h]

theorem next_of_exhausted {s : Session} {version : Nat} (h : s.phase = .exhausted version) :
    s.next = (.ok none, s) := by
  simp only [next, h]

theorem next_of_closed {s : Session} {version? : Option Nat} (h : s.phase = .closed version?) :
    s.next = (.error .closed, s) := by
  simp only [next, h]

theorem next_of_failed {s : Session} {version? : Option Nat} (h : s.phase = .failed version?) :
    s.next = (.error .failed, s) := by
  simp only [next, h]

/-- A fresh session whose header is accepted goes on with the first entry. -/
theorem next_of_fresh {s s' : Session} {version : Nat} (h : s.phase = .fresh)
    (ho : s.openSnapshot = (.ok version, s')) : s.next = s'.readEntry version := by
  simp only [next, h, ho]

theorem next_of_fresh_error {s s' : Session} {e : Error} (h : s.phase = .fresh)
    (ho : s.openSnapshot = (.error e, s')) : s.next = (.error e, s') := by
  simp only [next, h, ho]

/-- A fresh session whose header and first record are read delivers an entry. -/
theorem next_of_header_record {s : Session} {version : Nat} {e : Entry Packed}
    {intake intake' : Intake} (h : s.phase = .fresh)
    (hheader : ReadRecord.fromInput (Read.header s.profile) s.intake = .ok version intake)
    (hrecord : ReadRecord.record s.profile version intake = .ok (some e) intake') :
    s.next = (.ok (some e),
      (({ ({ s with intake := intake } : Session).accept version with intake := intake' } :
        Session).advance version e).deliver e) :=
  (next_of_fresh h (openSnapshot_of_ok hheader)).trans
    (readEntry_of_ok (ReadRecord.entry_of_some hrecord))

/-- A fresh session whose header is read fails with its first record. -/
theorem next_of_header_error {s : Session} {version : Nat} {e : ReadError}
    {intake intake' : Intake} (h : s.phase = .fresh)
    (hheader : ReadRecord.fromInput (Read.header s.profile) s.intake = .ok version intake)
    (hrecord : ReadRecord.record s.profile version intake = .error e intake') :
    s.next = (.error (.reading e),
      ({ ({ s with intake := intake } : Session).accept version with intake := intake' } :
        Session).fail e) :=
  (next_of_fresh h (openSnapshot_of_ok hheader)).trans
    (readEntry_of_error (ReadRecord.entry_of_error hrecord))

/-- How a run of reads ended. -/
inductive Ending where
  /-- As many entries as were asked for had been read. -/
  | enough
  /-- The snapshot had ended. -/
  | finished
  /-- Reading failed. -/
  | failed (e : Error)
  deriving DecidableEq, Repr

/-- Reads entries until the end of the snapshot, a failure, or `limit` of them. -/
def drain (s : Session) (limit : Option Nat) : Ending × Session :=
  if limit = some 0 then (.enough, s)
  else
    match _h : s.next with
    | (.ok (some _), s) => drain s (limit.map Nat.pred)
    | (.ok none, s) => (.finished, s)
    | (.error e, s) => (.failed e, s)
termination_by s.remaining
decreasing_by exact remaining_next _h

theorem drain_zero (s : Session) : s.drain (some 0) = (.enough, s) := by
  unfold drain
  rfl

theorem drain_of_some {s s' : Session} {limit : Option Nat} {e : Entry Packed}
    (hl : limit ≠ some 0) (h : s.next = (.ok (some e), s')) :
    s.drain limit = s'.drain (limit.map Nat.pred) := by
  rw [drain, if_neg hl]
  split <;> simp_all

theorem drain_of_none {s s' : Session} {limit : Option Nat} (hl : limit ≠ some 0)
    (h : s.next = (.ok none, s')) : s.drain limit = (.finished, s') := by
  rw [drain, if_neg hl]
  split <;> simp_all

theorem drain_of_error {s s' : Session} {limit : Option Nat} {e : Error} (hl : limit ≠ some 0)
    (h : s.next = (.error e, s')) : s.drain limit = (.failed e, s') := by
  rw [drain, if_neg hl]
  split <;> simp_all

/-- What is drained depends only on the next read. -/
theorem drain_congr {s t : Session} {limit : Option Nat} (hl : limit ≠ some 0)
    (h : s.next = t.next) : s.drain limit = t.drain limit := by
  generalize ht : t.next = r at h
  obtain ⟨answer, t'⟩ := r
  rcases answer with e | _ | e
  · rw [drain_of_error hl h, drain_of_error hl ht]
  · rw [drain_of_none hl h, drain_of_none hl ht]
  · rw [drain_of_some hl h, drain_of_some hl ht]

@[simp] theorem entries_fail (s : Session) (e : ReadError) : (s.fail e).entries = s.entries := by
  unfold fail
  split <;> rfl

@[simp] theorem intake_fail (s : Session) (e : ReadError) : (s.fail e).intake = s.intake := by
  unfold fail
  split <;> rfl

@[simp] theorem counted_fail (s : Session) (e : ReadError) : (s.fail e).counted = s.counted := by
  unfold fail
  split <;> rfl

@[simp] theorem tallies_fail (s : Session) (e : ReadError) : (s.fail e).tallies = s.tallies := by
  unfold fail
  split <;> rfl

@[simp] theorem version_fail (s : Session) (e : ReadError) :
    (s.fail e).phase.version? = s.phase.version? := by
  unfold fail
  split <;> rfl

@[simp] theorem entries_accept (s : Session) (version : Nat) :
    (s.accept version).entries = s.entries :=
  rfl

@[simp] theorem entries_advance (s : Session) (version : Nat) (e : Entry Packed) :
    (s.advance version e).entries = s.entries := by
  cases e <;> rfl

@[simp] theorem intake_advance (s : Session) (version : Nat) (e : Entry Packed) :
    (s.advance version e).intake = s.intake := by
  cases e <;> rfl

@[simp] theorem counted_advance (s : Session) (version : Nat) (e : Entry Packed) :
    (s.advance version e).counted = s.counted := by
  cases e <;> rfl

@[simp] theorem tallies_advance (s : Session) (version : Nat) (e : Entry Packed) :
    (s.advance version e).tallies = s.tallies := by
  cases e <;> rfl

/-- The version stays known. -/
theorem version_advance (s : Session) {version : Nat} (h : s.phase = .ready version)
    (e : Entry Packed) : (s.advance version e).phase.version? = s.phase.version? := by
  rw [h]
  cases e with
  | eof => rfl
  | selectDb | resizeDb | aux | keyValue => exact congrArg Phase.version? h

@[simp] theorem entries_deliver (s : Session) (e : Entry Packed) :
    (s.deliver e).entries = s.entries.push e :=
  rfl

@[simp] theorem intake_deliver (s : Session) (e : Entry Packed) :
    (s.deliver e).intake = s.intake :=
  rfl

/-- The entries delivered by a read, of which there is at most one. -/
def delivered : Except Error (Option (Entry Packed)) → List (Entry Packed)
  | .ok (some e) => [e]
  | .ok none | .error _ => []

theorem entries_openSnapshot (s : Session) : s.openSnapshot.2.entries = s.entries := by
  unfold openSnapshot
  split
  · rfl
  · exact entries_fail _ _

theorem entries_readEntry (s : Session) (version : Nat) :
    (s.readEntry version).2.entries.toList =
      s.entries.toList ++ delivered (s.readEntry version).1 := by
  unfold readEntry
  split
  · simp [delivered]
  · simp [delivered]

/-- A read keeps what has been delivered, and delivers what it returns. -/
theorem entries_next (s : Session) :
    s.next.2.entries.toList = s.entries.toList ++ delivered s.next.1 := by
  unfold next
  split
  · simp [delivered]
  · simp [delivered]
  · simp [delivered]
  · exact entries_readEntry s _
  · have hs := entries_openSnapshot s
    split
    · rename_i ho
      rw [entries_readEntry, ← hs, ho]
    · rename_i ho
      simp only [delivered, List.append_nil, ← hs, ho]

@[simp] theorem isClosed_fail (s : Session) (e : ReadError) (h : s.phase.isClosed = false) :
    (s.fail e).phase.isClosed = false := by
  unfold fail
  split
  · rfl
  · exact h

theorem isClosed_readEntry {s : Session} (h : s.phase.isClosed = false) (version : Nat) :
    (s.readEntry version).2.phase.isClosed = false := by
  unfold readEntry
  split
  · rename_i e _ _
    cases e with
    | eof checksum => rfl
    | selectDb | resizeDb | aux | keyValue => exact h
  · exact isClosed_fail _ _ h

theorem isClosed_openSnapshot {s : Session} (h : s.phase.isClosed = false) :
    s.openSnapshot.2.phase.isClosed = false := by
  unfold openSnapshot
  split
  · rfl
  · exact isClosed_fail _ _ h

/-- What is kept when a header or an entry is read is kept by every read. -/
theorem next_invariant {P : Session → Prop}
    (hopen : ∀ s, s.phase = .fresh → P s → P s.openSnapshot.2)
    (hread : ∀ s version, s.phase = .ready version → P s → P (s.readEntry version).2)
    {s : Session} (h : P s) : P s.next.2 := by
  unfold next
  split
  · exact h
  · exact h
  · exact h
  · rename_i version hp
    exact hread s version hp h
  · rename_i hp
    have ho := hopen s hp h
    split
    · rename_i version s' hs
      rw [hs] at ho
      exact hread s' version (phase_of_openSnapshot hs) ho
    · rename_i hs
      rwa [hs] at ho

/-- What every read keeps is kept by a run of reads. -/
theorem drain_invariant {P : Session → Prop} (hnext : ∀ s, P s → P s.next.2) {s : Session}
    (h : P s) (limit : Option Nat) : P (s.drain limit).2 := by
  fun_induction drain s limit with
  | case1 s => exact h
  | case2 s limit _ e s' hs ih =>
    have hn := hnext s h
    rw [hs] at hn
    exact ih hn
  | case3 s limit _ s' hs =>
    have hn := hnext s h
    rwa [hs] at hn
  | case4 s limit _ e s' hs =>
    have hn := hnext s h
    rwa [hs] at hn

/-- Reading closes nothing. -/
theorem isClosed_next {s : Session} (h : s.phase.isClosed = false) :
    s.next.2.phase.isClosed = false := by
  refine next_invariant (P := fun s => s.phase.isClosed = false) ?_ ?_ h
  · intro s _ hs
    exact isClosed_openSnapshot hs
  · intro s version _ hs
    exact isClosed_readEntry hs version

theorem isClosed_drain {s : Session} (limit : Option Nat) (h : s.phase.isClosed = false) :
    (s.drain limit).2.phase.isClosed = false :=
  drain_invariant (P := fun s => s.phase.isClosed = false) (fun _ => isClosed_next) h limit

/-- A run of reads only adds to what has been delivered. -/
theorem entries_prefix_drain (s : Session) (limit : Option Nat) :
    s.entries.toList <+: (s.drain limit).2.entries.toList := by
  refine drain_invariant (P := fun t => s.entries.toList <+: t.entries.toList) ?_
    List.prefix_rfl limit
  intro t ht
  rw [entries_next]
  exact ht.trans (List.prefix_append _ _)

end Session

end RedisDump
