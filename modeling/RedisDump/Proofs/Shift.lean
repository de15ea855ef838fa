import RedisDump.Proofs.Bytewise
import RedisDump.Session

/-!
# Counting bytes from elsewhere

Readers count the bytes that they take but never look at the count; it only appears in the error of
a read that is cut short. So a reader that starts with `k` more bytes counted does the same, and
counts `k` more (`Bytewise.shifts`, `Recordwise.shifts`, `ReadRecord.entry_shifts`).

A session that *resumes* another one has counted `k` more bytes, has delivered some entries before
those of the other, and is otherwise in the same state. What it reads from then on is the same, and
whatever it delivers comes behind what it had delivered before (`Resumes.next`, `Resumes.drain`).
-/

namespace RedisDump

/-! ### Readers -/

/-- An error with `k` more bytes counted. -/
def ReadError.shift (k : Nat) : ReadError → ReadError
  | truncated consumed needed => truncated (consumed + k) needed
  | e => e

/-- An input with `k` more bytes counted. -/
def Input.shift (k : Nat) (i : Input) : Input :=
  { i with consumed := i.consumed + k }

/-- The state of reading records with `k` more bytes counted. -/
def Intake.shift (k : Nat) (s : Intake) : Intake :=
  { s with input := s.input.shift k }

theorem Input.close_shift (k : Nat) (i : Input) : (i.shift k).close = i.close.shift k := by
  cases h : i.closed <;> simp [close, shift, h]

@[simp] theorem ReadError.isFault_shift (k : Nat) (e : ReadError) :
    (e.shift k).isFault = e.isFault := by
  cases e <;> rfl

theorem ReadError.shift_of_isVerdict {e : ReadError} (h : e.isVerdict = true) (k : Nat) :
    e.shift k = e := by
  cases e with
  | truncated => cases h
  | format | payload | unsupported | tooLarge | source | negativeRequest => rfl

theorem ReadError.shift_shift (j k : Nat) (e : ReadError) :
    (e.shift j).shift k = e.shift (j + k) := by
  cases e with
  | truncated consumed needed => simp only [shift, Nat.add_assoc]
  | format | payload | unsupported | tooLarge | source | negativeRequest => rfl

/-- The end of a computation with `k` more bytes counted; `f` counts them in the state. -/
def shiftResult {σ α : Type} (k : Nat) (f : σ → σ) :
    EStateM.Result ReadError σ α → EStateM.Result ReadError σ α
  | .ok a s => .ok a (f s)
  | .error e s => .error (e.shift k) (f s)

/-- A computation for which it makes no difference whether `k` more bytes were counted before, but
that they are afterwards. -/
def Shifts {σ α : Type} (k : Nat) (f : σ → σ) (r : EStateM ReadError σ α) : Prop :=
  ∀ s, r (f s) = shiftResult k f (r s)

theorem Shifts.bind {σ α β : Type} {k : Nat} {f : σ → σ} {r : EStateM ReadError σ α}
    {g : α → EStateM ReadError σ β} (hr : Shifts k f r) (hg : ∀ a, Shifts k f (g a)) :
    Shifts k f (r >>= g) := by
  intro s
  change EStateM.bind r g (f s) = shiftResult k f (EStateM.bind r g s)
  unfold EStateM.bind
  rw [hr s]
  cases r s with
  | ok a s' => exact hg a s'
  | error e s' => rfl

theorem Read.next_shifts (k needed : Nat) : Shifts k (Input.shift k) (Read.next needed) := by
  intro i
  unfold Read.next
  simp only [Input.shift]
  split
  · simp only [shiftResult, Input.shift, Nat.add_right_comm]
  · split <;> simp only [shiftResult, Input.shift, ReadError.shift, Nat.add_right_comm]

/-- **A bytewise reader does not look at the count.** -/
theorem Bytewise.shifts {α : Type} {r : Read α} (h : Bytewise r) (k : Nat) :
    Shifts k (Input.shift k) r := by
  induction h with
  | pure a => exact fun _ => rfl
  | throw he =>
    intro i
    change EStateM.Result.error _ _ = EStateM.Result.error _ _
    rw [ReadError.shift_of_isVerdict he]
  | next needed => exact Read.next_shifts k needed
  | bind _ _ ihr ihf => exact ihr.bind ihf

theorem ReadRecord.fromInput_shifts {α : Type} {r : Read α} {k : Nat}
    (h : Shifts k (Input.shift k) r) : Shifts k (Intake.shift k) (fromInput r) := by
  intro s
  have hr : r (s.shift k).input = shiftResult k (Input.shift k) (r s.input) := h s.input
  unfold fromInput
  rw [hr]
  cases r s.input <;> rfl

/-- **Neither does a recordwise one.** -/
theorem Recordwise.shifts {α : Type} {r : ReadRecord α} (h : Recordwise r) (k : Nat) :
    Shifts k (Intake.shift k) r := by
  induction h with
  | input h => exact ReadRecord.fromInput_shifts (h.shifts k)
  | pure a => exact fun _ => rfl
  | throw he =>
    intro s
    change EStateM.Result.error _ _ = EStateM.Result.error _ _
    rw [ReadError.shift_of_isVerdict he]
  | consult _ ih => exact fun s => ih s.notes s
  | amend f => exact fun _ => rfl
  | bind _ _ ihr ihf => exact ihr.bind ihf

/-- Nor the reader of entries. -/
theorem ReadRecord.entry_shifts (p : Profile) (version k : Nat) :
    Shifts k (Intake.shift k) (entry p version) := by
  intro s
  have hrecord : Shifts k (Intake.shift k) (record p version) :=
    (Recordwise.record p version).shifts k
  fun_induction entry p version s with
  | case1 s e s' hs =>
    have hr := hrecord s
    rw [hs] at hr
    exact entry_of_error hr
  | case2 s e s' hs =>
    have hr := hrecord s
    rw [hs] at hr
    exact entry_of_some hr
  | case3 s s' hs ih =>
    have hr := hrecord s
    rw [hs] at hr
    exact (entry_of_none hr).trans ih

/-! ### Sessions -/

namespace Session

/-- The error of a session with `k` more bytes counted. -/
def Error.shift (k : Nat) : Error → Error
  | reading e => reading (e.shift k)
  | e => e

/-- The ending of a run of reads with `k` more bytes counted. -/
def Ending.shift (k : Nat) : Ending → Ending
  | failed e => failed (e.shift k)
  | ending => ending

theorem Ending.shift_shift (j k : Nat) (ending : Ending) :
    (ending.shift j).shift k = ending.shift (j + k) := by
  cases ending with
  | enough | finished => rfl
  | failed e =>
    cases e with
    | closed | failed => rfl
    | reading e => simp only [shift, Error.shift, ReadError.shift_shift]

/-- A session `t` that has counted `k` more bytes than `s`, and has delivered `past` before. -/
structure Resumes (k : Nat) (past : Array (Entry Packed)) (s t : Session) : Prop where
  profile : t.profile = s.profile
  intake : t.intake = s.intake.shift k
  phase : t.phase = s.phase
  entries : t.entries = past ++ s.entries

variable {k : Nat} {past : Array (Entry Packed)} {s t : Session}

/-- The outcomes of an operation on a session and on one that resumes it. -/
def Resumed {α : Type} (k : Nat) (past : Array (Entry Packed)) (r r' : Except Error α × Session) :
    Prop :=
  r'.1 = r.1.mapError (Error.shift k) ∧ Resumes k past r.2 r'.2

namespace Resumes

theorem bytesRead (h : Resumes k past s t) : t.bytesRead = s.bytesRead + k := by
  unfold Session.bytesRead
  rw [h.intake]
  rfl

theorem withIntake (h : Resumes k past s t) (i : Intake) :
    Resumes k past { s with intake := i } { t with intake := i.shift k } :=
  { h with intake := rfl }

theorem fail (h : Resumes k past s t) (e : ReadError) :
    Resumes k past (s.fail e) (t.fail (e.shift k)) := by
  unfold Session.fail
  rw [ReadError.isFault_shift]
  split
  · exact { h with phase := by rw [h.phase] }
  · exact h

theorem accept (h : Resumes k past s t) (version : Nat) :
    Resumes k past (s.accept version) (t.accept version) :=
  { h with phase := rfl }

theorem advance (h : Resumes k past s t) (version : Nat) (e : Entry Packed) :
    Resumes k past (s.advance version e) (t.advance version e) := by
  cases e with
  | eof checksum => exact { h with phase := rfl }
  | selectDb | resizeDb | aux | keyValue => exact h

theorem deliver (h : Resumes k past s t) (e : Entry Packed) :
    Resumes k past (s.deliver e) (t.deliver e) :=
  { h with entries := by simp only [Session.deliver, h.entries, Array.push_append] }

theorem openSnapshot (h : Resumes k past s t) : Resumed k past s.openSnapshot t.openSnapshot := by
  have hr : ReadRecord.fromInput (Read.header t.profile) t.intake = shiftResult k (Intake.shift k)
      (ReadRecord.fromInput (Read.header s.profile) s.intake) := by
    rw [h.profile, h.intake]
    exact ReadRecord.fromInput_shifts ((Bytewise.header s.profile).shifts k) s.intake
  unfold Session.openSnapshot
  rw [hr]
  cases ReadRecord.fromInput (Read.header s.profile) s.intake with
  | ok version i => exact ⟨rfl, (h.withIntake i).accept version⟩
  | error e i => exact ⟨rfl, (h.withIntake i).fail e⟩

theorem readEntry (h : Resumes k past s t) (version : Nat) :
    Resumed k past (s.readEntry version) (t.readEntry version) := by
  have hr : ReadRecord.entry t.profile version t.intake = shiftResult k (Intake.shift k)
      (ReadRecord.entry s.profile version s.intake) := by
    rw [h.profile, h.intake]
    exact ReadRecord.entry_shifts s.profile version k s.intake
  unfold Session.readEntry
  rw [hr]
  cases ReadRecord.entry s.profile version s.intake with
  | ok e i => exact ⟨rfl, ((h.withIntake i).advance version e).deliver e⟩
  | error e i => exact ⟨rfl, (h.withIntake i).fail e⟩

/-- A session that resumes another one returns the same. -/
theorem next (h : Resumes k past s t) : Resumed k past s.next t.next := by
  unfold Session.next
  rw [h.phase]
  split
  · exact ⟨rfl, h⟩
  · exact ⟨rfl, h⟩
  · exact ⟨rfl, h⟩
  · exact h.readEntry _
  · obtain ⟨ha, hs⟩ := h.openSnapshot
    generalize s.openSnapshot = r, t.openSnapshot = r' at ha hs
    obtain ⟨answer, s'⟩ := r
    obtain ⟨answer', t'⟩ := r'
    cases answer with
    | ok version =>
      cases ha
      exact hs.readEntry version
    | error e =>
      cases ha
      exact ⟨rfl, hs⟩

/-- **A session that resumes another one drains the same**, behind what it had delivered. -/
theorem drain (h : Resumes k past s t) (limit : Option Nat) :
    (t.drain limit).1 = (s.drain limit).1.shift k ∧
      Resumes k past (s.drain limit).2 (t.drain limit).2 := by
  fun_induction Session.drain s limit generalizing t with
  | case1 s =>
    rw [drain_zero]
    exact ⟨rfl, h⟩
  | case2 s limit hl e s' hs ih =>
    obtain ⟨ha, hn⟩ := h.next
    rw [hs] at ha hn
    rw [drain_of_some hl (Prod.ext ha rfl)]
    exact ih hn
  | case3 s limit hl s' hs =>
    obtain ⟨ha, hn⟩ := h.next
    rw [hs] at ha hn
    rw [drain_of_none hl (Prod.ext ha rfl)]
    exact ⟨rfl, hn⟩
  | case4 s limit hl e s' hs =>
    obtain ⟨ha, hn⟩ := h.next
    rw [hs] at ha hn
    rw [drain_of_error hl (Prod.ext ha rfl)]
    exact ⟨rfl, hn⟩

theorem close (h : Resumes k past s t) : Resumes k past s.close t.close := by
  unfold Session.close
  rw [h.phase]
  split
  · exact h
  · refine { h with intake := ?_, phase := rfl }
    rw [h.intake]
    simp only [Intake.shift, Input.close_shift]

end Resumes

end Session

end RedisDump
