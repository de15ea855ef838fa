import RedisDump.Proofs.Questions
import RedisDump.Session.Steps

/-!
# Failures

A read fails for good exactly when its error is a fault of the snapshot: then the session stays
failed, at its place, until it is closed. A failure of the source, or a payload that declares a
size for which there is no room, leaves the session where it stands, inside the header or a
record, and the next read takes the bytes there for the start of one (`next_error_final_iff`).
The header is accepted at most once in any run (`openings_run`).
-/

namespace RedisDump

/-- Whether an event is the acceptance of a header. -/
def LogEvent.isOpening : LogEvent → Bool
  | .opened _ => true
  | .reachedEnd _ | .closed _ => false

namespace Session

variable {s s' : Session}

/-! ### Failed sessions -/

/-- Whether an error is followed only by refusals, until the session is closed. -/
def Error.isFinal : Error → Bool
  | closed | failed => true
  | reading e => e.isFault

/-- Whatever is done with a session except closing it, it is failed, refuses to read, and is at
the same place with as many entries. -/
def StaysFailed (s : Session) : Prop :=
  ∀ ops : List Step, Step.close ∉ ops →
    (s.run ops).phase = .failed s.phase.version? ∧
      (s.run ops).next = (.error .failed, s.run ops) ∧
      (s.run ops).intake = s.intake ∧ (s.run ops).entries.size = s.entries.size

/-- A step of a failed session other than closing it. -/
theorem step_of_failed {version? : Option Nat} (h : s.phase = .failed version?) {op : Step}
    (hop : op ≠ .close) :
    (s.step op).2.phase = .failed version? ∧ (s.step op).2.intake = s.intake ∧
      (s.step op).2.entries.size = s.entries.size := by
  have hn := next_of_failed h
  cases op with
  | next =>
    have hs : (s.step .next).2 = s := by simp only [step, hn]
    rw [hs]
    exact ⟨h, rfl, rfl⟩
  | demand =>
    have hs : (s.step .demand).2 = s := by simp only [step, demand, hn]
    rw [hs]
    exact ⟨h, rfl, rfl⟩
  | drain =>
    have hd : s.drain none = (.failed .failed, s) := drain_of_error nofun hn
    have hs : (s.step .drain).2 = s := by simp only [step, drainAll, hd]
    rw [hs]
    exact ⟨h, rfl, rfl⟩
  | close => exact absurd rfl hop
  | allValues => exact ⟨h, rfl, by simp [step, forceAll]⟩
  | metrics => exact ⟨h, rfl, rfl⟩
  | log => exact ⟨h, rfl, rfl⟩
  | closeCalls => exact ⟨h, rfl, rfl⟩
  | ask q => exact ⟨h, rfl, Entry.size_step _ _⟩

/-- A failed session stays failed. -/
theorem staysFailed_of_failed {version? : Option Nat} (h : s.phase = .failed version?) :
    StaysFailed s := by
  intro ops hops
  induction ops generalizing s with
  | nil => exact ⟨h ▸ rfl, next_of_failed h, rfl, rfl⟩
  | cons op ops ih =>
    rw [List.mem_cons, not_or] at hops
    obtain ⟨hp, hi, hn⟩ := step_of_failed h (Ne.symm hops.1)
    obtain ⟨hp', hs, hi', hn'⟩ := ih hp hops.2
    rw [hp] at hp'
    rw [h]
    exact ⟨hp', hs, hi'.trans hi, hn'.trans hn⟩

/-! ### The errors of reading -/

theorem openSnapshot_eq_error {e : Error} (h : s.openSnapshot = (.error e, s')) :
    ∃ r t, e = .reading r ∧ s' = fail t r ∧ t.phase = s.phase := by
  unfold openSnapshot at h
  split at h
  · cases h
  · cases h
    exact ⟨_, _, rfl, rfl, rfl⟩

theorem readEntry_eq_error {version : Nat} {e : Error} (h : s.readEntry version = (.error e, s')) :
    ∃ r t, e = .reading r ∧ s' = fail t r ∧ t.phase = s.phase := by
  unfold readEntry at h
  split at h
  · cases h
  · cases h
    exact ⟨_, _, rfl, rfl, rfl⟩

/-- An open session that returns an error had failed before, or fails to read. -/
theorem next_eq_error {e : Error} (ho : s.phase.isClosed = false) (h : s.next = (.error e, s')) :
    (∃ version?, s.phase = .failed version? ∧ e = .failed ∧ s' = s) ∨
      ∃ r t, e = .reading r ∧ s' = fail t r ∧ (t.phase = .fresh ∨ ∃ v, t.phase = .ready v) := by
  unfold next at h
  split at h
  · rename_i hp
    rw [hp] at ho
    cases ho
  · rename_i hp
    cases h
    exact .inl ⟨_, hp, rfl, rfl⟩
  · cases h
  · rename_i hp
    obtain ⟨r, t, rfl, rfl, ht⟩ := readEntry_eq_error h
    exact .inr ⟨r, t, rfl, rfl, .inr ⟨_, ht.trans hp⟩⟩
  · rename_i hp
    split at h
    · rename_i hs
      obtain ⟨r, t, rfl, rfl, ht⟩ := readEntry_eq_error h
      exact .inr ⟨r, t, rfl, rfl, .inr ⟨_, ht.trans (phase_of_openSnapshot hs)⟩⟩
    · rename_i hs
      cases h
      obtain ⟨r, t, rfl, rfl, ht⟩ := openSnapshot_eq_error hs
      exact .inr ⟨r, t, rfl, rfl, .inl (ht.trans hp)⟩

/-- A session whose error is not final goes on as if nothing had been read. -/
theorem phase_of_not_isFinal {e : Error} (ho : s.phase.isClosed = false)
    (h : s.next = (.error e, s')) (he : e.isFinal = false) :
    s'.phase = .fresh ∨ ∃ v, s'.phase = .ready v := by
  rcases next_eq_error ho h with ⟨version?, hp, rfl, rfl⟩ | ⟨r, t, rfl, rfl, ht⟩
  · cases he
  · have hr : r.isFault = false := he
    simpa only [fail, hr, Bool.false_eq_true, if_false] using ht

/-- An error is final exactly when the session stays failed after it. -/
theorem staysFailed_iff_isFinal {e : Error} (ho : s.phase.isClosed = false)
    (h : s.next = (.error e, s')) : StaysFailed s' ↔ e.isFinal = true := by
  cases he : e.isFinal with
  | true =>
    refine iff_of_true ?_ rfl
    rcases next_eq_error ho h with ⟨version?, hp, rfl, rfl⟩ | ⟨r, t, rfl, rfl, ht⟩
    · exact staysFailed_of_failed hp
    · have hr : r.isFault = true := he
      have hp : (t.fail r).phase = .failed t.phase.version? := by
        simp only [fail, hr, if_true]
      exact staysFailed_of_failed hp
  | false =>
    refine iff_of_false (fun hs => ?_) nofun
    have hp : s'.phase = .failed s'.phase.version? := (hs [] List.not_mem_nil).1
    rcases phase_of_not_isFinal ho h he with hf | ⟨v, hf⟩
    · rw [hf] at hp
      cases hp
    · rw [hf] at hp
      cases hp

/-! ### The header -/

/-- How often a header has been accepted. -/
def openings (s : Session) : Nat :=
  s.log.toList.countP LogEvent.isOpening

/-- A header has been accepted once if a version is known, and not at all otherwise. -/
def OpenedOnce (s : Session) : Prop :=
  s.openings = if s.phase.version?.isSome then 1 else 0

theorem OpenedOnce.withIntake (h : OpenedOnce s) (i : Intake) :
    OpenedOnce { s with intake := i } :=
  h

theorem OpenedOnce.fail (h : OpenedOnce s) (e : ReadError) : OpenedOnce (s.fail e) := by
  unfold Session.fail
  split
  · exact h
  · exact h

theorem OpenedOnce.close (h : OpenedOnce s) : OpenedOnce s.close := by
  unfold Session.close
  split
  · exact h
  · have hl : (s.log.push (.closed s.bytesRead)).toList.countP LogEvent.isOpening = openings s := by
      simp [openings, LogEvent.isOpening]
    exact hl.trans h

theorem OpenedOnce.openSnapshot (h : OpenedOnce s) (hp : s.phase = .fresh) :
    OpenedOnce s.openSnapshot.2 := by
  unfold Session.openSnapshot
  split
  · have hz : openings s = 0 := by
      rw [h, hp]
      rfl
    simpa [OpenedOnce, openings, accept, LogEvent.isOpening, Phase.version?] using hz
  · exact (h.withIntake _).fail _

theorem OpenedOnce.readEntry (h : OpenedOnce s) {version : Nat} (hp : s.phase = .ready version) :
    OpenedOnce (s.readEntry version).2 := by
  have hs : openings s = 1 := by
    rw [h, hp]
    rfl
  unfold Session.readEntry
  split
  · rename_i e _ _
    cases e with
    | eof checksum =>
      simpa [OpenedOnce, openings, deliver, advance, LogEvent.isOpening, Phase.version?] using hs
    | selectDb | resizeDb | aux | keyValue => exact h
  · exact (h.withIntake _).fail _

/-- A read keeps the number of accepted headers what the phase says. -/
theorem OpenedOnce.next (h : OpenedOnce s) : OpenedOnce s.next.2 :=
  next_invariant (fun _ hp hs => hs.openSnapshot hp) (fun _ _ hp hs => hs.readEntry hp) h

theorem OpenedOnce.drain (h : OpenedOnce s) (limit : Option Nat) :
    OpenedOnce (s.drain limit).2 :=
  drain_invariant (fun _ hs => hs.next) h limit

theorem OpenedOnce.step (h : OpenedOnce s) (op : Step) : OpenedOnce (s.step op).2 := by
  cases op with
  | next => exact h.next
  | demand =>
    have hn := h.next
    unfold Session.step demand
    generalize s.next = r at hn
    obtain ⟨answer, t⟩ := r
    rcases answer with e | _ | e
    · exact hn
    · exact hn
    · exact hn
  | drain => exact h.drain none
  | close => exact h.close
  | allValues | metrics | log | closeCalls | ask => exact h

theorem OpenedOnce.run (h : OpenedOnce s) (ops : List Step) : OpenedOnce (s.run ops) :=
  run_invariant (fun _ op hs => hs.step op) h ops

/-- In no run is a header accepted twice. -/
theorem openings_run (p : Profile) (source : Source) (ops : List Step) :
    ((start p source).run ops).openings ≤ 1 := by
  have h : OpenedOnce (start p source) := rfl
  rw [h.run ops]
  split <;> omega

/-! ### Runs -/

/-- **Which failures are final.** Whatever the source does and whatever has been done before, a
session stays failed after an error exactly when that is a fault of the snapshot or the refusal
of a session that had failed already. After any other error it goes on where it stands. In no run
is a header accepted twice. -/
theorem next_error_final_iff (p : Profile) (source : Source) (before : List Step) {e : Error}
    (ho : ((start p source).run before).phase.isClosed = false)
    (h : ((start p source).run before).next = (.error e, s')) :
    (StaysFailed s' ↔ e.isFinal = true) ∧
      (e.isFinal = false → s'.phase = .fresh ∨ ∃ v, s'.phase = .ready v) ∧
      ∀ ops, ((start p source).run ops).openings ≤ 1 :=
  ⟨staysFailed_iff_isFinal ho h, phase_of_not_isFinal ho h, openings_run p source⟩

/-- A source that selects a database and ends inside the length that selects another one. -/
def cutSource : Source :=
  .ofPortions [some [0x52, 0x45, 0x44, 0x49, 0x53, 0x30, 0x30, 0x31, 0x31, 0xFE, 0x05, 0xFE, 0x80,
    0x00]]

/-- The place after the first `n` bytes of a source in portions. -/
def portionsFrom (n : Nat) (unread : Bytes) (portions : List (Option Bytes)) : Intake :=
  { input := { source := .ofPortions portions, bufferSize := 8192, unread, consumed := n } }

/-- The first record is read; the second one is cut short inside its length, for good. -/
theorem next_error_final_cutSource : ∃ s s',
    (start .standard cutSource).next = (.ok (some (.selectDb 5)), s) ∧
      ((start .standard cutSource).run [.next]).next =
        (.error (.reading (.truncated 14 3)), s') ∧ StaysFailed s' := by
  have hh : ReadRecord.fromInput (Read.header .standard) (start .standard cutSource).intake =
      .ok 11 (portionsFrom 9 [0xFE, 0x05, 0xFE, 0x80, 0x00] []) := rfl
  have hfirst : ReadRecord.record .standard 11
      (portionsFrom 9 [0xFE, 0x05, 0xFE, 0x80, 0x00] []) =
        .ok (some (.selectDb 5)) (portionsFrom 11 [0xFE, 0x80, 0x00] []) := rfl
  have hsecond : ReadRecord.record .standard 11 (portionsFrom 11 [0xFE, 0x80, 0x00] []) =
      .error (.truncated 14 3) (portionsFrom 14 [] []) := rfl
  let s : Session := ({ start .standard cutSource with
    intake := portionsFrom 9 [0xFE, 0x05, 0xFE, 0x80, 0x00] [] } : Session).accept 11
  let t : Session := ({ s with intake := portionsFrom 11 [0xFE, 0x80, 0x00] [] } :
    Session).deliver (.selectDb 5)
  have hs : (start .standard cutSource).next = (.ok (some (.selectDb 5)), t) :=
    next_of_header_record rfl hh hfirst
  have hrun : (start .standard cutSource).run [.next] = t := by simp only [run, step, hs]
  have hp : ((start .standard cutSource).run [.next]).phase.isClosed = false := by
    rw [hrun]
    rfl
  have hn := (congrArg next hrun).trans ((next_of_ready rfl).trans
    (readEntry_of_error (s := t) (ReadRecord.entry_of_error hsecond)))
  exact ⟨t, _, hs, hn, (next_error_final_iff .standard cutSource [.next] hp hn).1.mpr rfl⟩

/-- A source that fails inside the length that selects a database; the rest of the length comes
after it. -/
def interruptedSource : Source :=
  .ofPortions [some [0x52, 0x45, 0x44, 0x49, 0x53, 0x30, 0x30, 0x31, 0x31, 0xFE, 0x80], none,
    some [0x00, 0x00, 0x00, 0x05]]

/-- The session before the record that the interrupted source fails in, which starts behind the
header. -/
def beforeInterruption : Session :=
  ({ start .standard interruptedSource with
    intake := portionsFrom 9 [0xFE, 0x80] [none, some [0x00, 0x00, 0x00, 0x05]] } :
      Session).accept 11

/-- The session after the interrupted source has failed, which has taken two bytes more. -/
def interrupted : Session :=
  { beforeInterruption with intake := portionsFrom 11 [] [some [0x00, 0x00, 0x00, 0x05]] }

/-- The key that is read from the rest of the length. -/
def strayKey : Entry Packed :=
  .keyValue { key := [], kind := .string } (.ofElements [[]])

/-- The session after the stray key. -/
def resumed : Session :=
  ({ interrupted with intake := portionsFrom 14 [0x05] [] } : Session).deliver strayKey

theorem openSnapshot_interruptedSource :
    (start .standard interruptedSource).openSnapshot = (.ok 11, beforeInterruption) := by
  have hh : ReadRecord.fromInput (Read.header .standard)
      (start .standard interruptedSource).intake =
        .ok 11 (portionsFrom 9 [0xFE, 0x80] [none, some [0x00, 0x00, 0x00, 0x05]]) := rfl
  exact openSnapshot_of_ok hh

theorem next_interruptedSource :
    (start .standard interruptedSource).next =
      (.error (.reading (.source .failed)), interrupted) := by
  have hr : ReadRecord.record .standard 11 beforeInterruption.intake =
      .error (.source .failed) (portionsFrom 11 [] [some [0x00, 0x00, 0x00, 0x05]]) := rfl
  rw [next_of_fresh rfl openSnapshot_interruptedSource]
  exact readEntry_of_error (ReadRecord.entry_of_error hr)

theorem next_interrupted : interrupted.next = (.ok (some strayKey), resumed) := by
  have hk : ReadRecord.record .standard 11 interrupted.intake =
      .ok (some strayKey) (portionsFrom 14 [0x05] []) := rfl
  exact (next_of_ready rfl).trans (readEntry_of_ok (ReadRecord.entry_of_some hk))

/-- After the failure of its source a session goes on inside the length and delivers a key that the
snapshot does not hold. -/
theorem resumes_after_source_failure : ∃ s s',
    (start .standard interruptedSource).next = (.error (.reading (.source .failed)), s) ∧
      ¬ StaysFailed s ∧
      s.next = (.ok (some (.keyValue { key := [], kind := .string } (.ofElements [[]]))), s') := by
  refine ⟨interrupted, resumed, next_interruptedSource, ?_, next_interrupted⟩
  rw [staysFailed_iff_isFinal rfl next_interruptedSource]
  exact nofun

end Session

end RedisDump
