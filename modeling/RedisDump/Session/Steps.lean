import RedisDump.Entry.Steps
import RedisDump.Session

/-!
# A session step by step

The operations on a session as data, so that a sequence of them can be run one by one. Questions
to the entries that have been delivered may come at any time, also after the session has failed
or has been closed.
-/

namespace RedisDump.Session

/-- An operation on a session. -/
inductive Step where
  /-- The next entry, or nothing after the end. -/
  | next
  /-- The next entry, or an error after the end. -/
  | demand
  /-- All entries up to the end or a failure. -/
  | drain
  /-- Closing the session. -/
  | close
  /-- The elements of every key delivered so far. -/
  | allValues
  /-- The counts. -/
  | metrics
  /-- The events so far. -/
  | log
  /-- How often the source has been closed. -/
  | closeCalls
  /-- A question to the entries delivered so far. -/
  | ask (q : Entry.Step)
  deriving DecidableEq, Repr

/-- The value that a step returns. -/
inductive Answer where
  | nothing
  | entry (e : Option (Entry Packed))
  /-- The entries got by a step, and the failure that ended it. -/
  | entries (got : List (Entry Packed)) (failure? : Option Error)
  /-- The elements of each key, or why they cannot be decoded; nothing for other entries. -/
  | values (answers : List (Option (Except PackedError (List Bytes))))
  | samples (m : Metrics)
  | events (log : List LogEvent)
  | number (n : Nat)
  | asked (a : Entry.Answer Packed)

/-- Why a step has no answer. -/
inductive StepError where
  /-- The session delivers nothing. -/
  | session (e : Error)
  /-- There is no further entry. -/
  | noMore
  /-- A question to the entries has no answer. -/
  | asked (e : Entry.Error PackedError)

/-- Reads the next entry, of which there has to be one. -/
def demand (s : Session) : Except StepError Answer × Session :=
  match s.next with
  | (.ok (some e), s) => (.ok (.entry (some e)), s)
  | (.ok none, s) => (.error .noMore, s)
  | (.error e, s) => (.error (.session e), s)

/-- The failure of a run of reads. -/
def Ending.failure? : Ending → Option Error
  | enough | finished => none
  | failed e => some e

/-- Reads all entries up to the end or a failure. -/
def drainAll (s : Session) : Answer × Session :=
  let before := s.entries.size
  let (ending, s) := s.drain none
  (.entries (s.entries.toList.drop before) ending.failure?, s)

/-- Decodes the elements of every entry. -/
def forceAll (s : Session) :
    List (Option (Except PackedError (List Bytes))) × Session :=
  let forced := s.entries.map Entry.forceValues
  (forced.toList.map Prod.fst, { s with entries := forced.map Prod.snd })

/-- Asks the entries delivered so far a question. -/
def ask (s : Session) (q : Entry.Step) : Except StepError Answer × Session :=
  let (answer, entries) := Entry.step s.entries q
  ((answer.map .asked).mapError .asked, { s with entries := entries })

/-- Runs a step. -/
def step (s : Session) : Step → Except StepError Answer × Session
  | .next =>
    let (answer, s) := s.next
    ((answer.map .entry).mapError .session, s)
  | .demand => s.demand
  | .drain =>
    let (answer, s) := s.drainAll
    (.ok answer, s)
  | .close => (.ok .nothing, s.close)
  | .allValues =>
    let (answers, s) := s.forceAll
    (.ok (.values answers), s)
  | .metrics => (.ok (.samples s.metrics), s)
  | .log => (.ok (.events s.log.toList), s)
  | .closeCalls => (.ok (.number s.closeCalls), s)
  | .ask q => s.ask q

/-- A demand leaves the session as a read does. -/
theorem demand_snd (s : Session) : s.demand.2 = s.next.2 := by
  unfold demand
  split <;> simp only [*]

/-- The session after a sequence of steps. -/
def run (s : Session) : List Step → Session
  | [] => s
  | op :: ops => run (s.step op).2 ops

theorem run_append (s : Session) (ops ops' : List Step) :
    s.run (ops ++ ops') = (s.run ops).run ops' := by
  induction ops generalizing s with
  | nil => rfl
  | cons op ops ih => exact ih _

/-- What every step keeps is kept by a sequence of steps. -/
theorem run_invariant {P : Session → Prop} (hstep : ∀ s op, P s → P (s.step op).2) {s : Session}
    (h : P s) (ops : List Step) : P (s.run ops) := by
  induction ops generalizing s with
  | nil => exact h
  | cons op ops ih => exact ih (hstep s op h)

end RedisDump.Session
