import RedisDump.Proofs.Buffering
import RedisDump.Proofs.Shift
import RedisDump.Proofs.Wire.Snapshot

/-!
# Going on from some place

What is done with a session from some place on: it is read, drained or closed, and the elements of
the entries delivered since then are asked for. Two such runs are compared in two ways. A session
that resumes another one answers the same, with more bytes counted (`laterTranscript_resumes`), and
twins answer the same (`laterTranscript_twins`). Put together, two sessions between two records
that still hold the same bytes go on in the same way (`laterTranscript_of_before`).
-/

namespace RedisDump

/-- A question to the elements of an entry does not depend on the entries before it. -/
theorem Entry.askValues_append {δ ε : Type} [Decodable δ ε] (past entries : Array (Entry δ))
    (i : Fin entries.size) (h : past.size + i.val < (past ++ entries).size) (field : String)
    (q : Deferred.Step) :
    askValues (ε := ε) (past ++ entries) ⟨past.size + i.val, h⟩ field q =
      ((askValues entries i field q).1, past ++ (askValues entries i field q).2) := by
  have hget : (past ++ entries)[past.size + i.val] = entries[i.val] := by
    simp [Array.getElem_append_right]
  unfold askValues
  simp only [Fin.getElem_fin, hget]
  cases entries[i.val].values? with
  | none => rfl
  | some values =>
    refine Prod.ext rfl ?_
    change (past ++ entries).set (past.size + i.val) _ h = past ++ entries.set i.val _ i.isLt
    rw [Array.set_append_right _ (Nat.le_add_right _ _)]
    simp only [Nat.add_sub_cancel_left]

namespace Session

/-! ### Steps and their reports -/

/-- An operation on a session from some place on. -/
inductive LaterStep where
  /-- The next entry, or nothing after the end. -/
  | next
  /-- The next entry, or an error after the end. -/
  | demand
  /-- All entries up to the end or a failure. -/
  | drain
  /-- Closing the session. -/
  | close
  /-- A question to the elements of an entry, the first one delivered since then being 0. -/
  | values (i : Nat) (q : Deferred.Step)

/-- Asks for the elements of the entry that was delivered `i` entries after the first `before`
ones. -/
def askLater (s : Session) (before i : Nat) (q : Deferred.Step) :
    Except StepError Answer × Session :=
  if h : before + i < s.entries.size then
    let (answer, entries) := Entry.askValues s.entries ⟨before + i, h⟩ Entry.listField q
    ((answer.map .asked).mapError .asked, { s with entries := entries })
  else (.error (.asked (.position .outOfRange)), s)

/-- Runs a step, when `before` entries had been delivered before the place. -/
def later (s : Session) (before : Nat) : LaterStep → Except StepError Answer × Session
  | .next => s.step .next
  | .demand => s.step .demand
  | .drain => s.step .drain
  | .close => s.step .close
  | .values i q => s.askLater before i q

/-- What is seen of a session after each of a sequence of steps. -/
def laterTranscript (s : Session) (before : Nat) : List LaterStep → List Report
  | [] => []
  | op :: ops =>
    let (answer, s) := s.later before op
    { answer, phase := s.phase, bytesRead := s.bytesRead } :: laterTranscript s before ops

/-- Asking for the elements of a later entry is asking the list of an entry, by a position that
names its place. -/
theorem askLater_eq_step {s : Session} {before i : Nat} {j : Int}
    (hi : before + i < s.entries.size)
    (hj : Position.place s.entries.size j = .ok ⟨before + i, hi⟩) (q : Deferred.Step) :
    s.askLater before i q = s.step (.ask (.list j q)) := by
  have hlist : Entry.step s.entries (.list j q) =
      Entry.askValues s.entries ⟨before + i, hi⟩ Entry.listField q := by
    change Entry.atPosition s.entries j _ = _
    unfold Entry.atPosition
    rw [hj]
  change s.askLater before i q = s.ask (.list j q)
  unfold askLater ask
  rw [dif_pos hi, hlist]

/-- The answer to a step with `k` more bytes counted. -/
def Answer.shift (k : Nat) : Answer → Answer
  | entries got failure? => entries got (failure?.map (Error.shift k))
  | answer => answer

/-- Why a step has no answer, with `k` more bytes counted. -/
def StepError.shift (k : Nat) : StepError → StepError
  | session e => session (e.shift k)
  | e => e

/-- The outcome of a step with `k` more bytes counted. -/
def shiftAnswer (k : Nat) (answer : Except StepError Answer) : Except StepError Answer :=
  (answer.map (Answer.shift k)).mapError (StepError.shift k)

/-- A report with `k` more bytes counted. -/
def Report.shift (k : Nat) (r : Report) : Report where
  answer := shiftAnswer k r.answer
  phase := r.phase
  bytesRead := r.bytesRead + k

/-! ### A session that resumes another one -/

variable {k : Nat} {past : Array (Entry Packed)} {s t : Session}

namespace Resumes

theorem step_next (h : Resumes k past s t) :
    (t.step .next).1 = shiftAnswer k (s.step .next).1 ∧
      Resumes k past (s.step .next).2 (t.step .next).2 := by
  obtain ⟨ha, hs⟩ := h.next
  refine ⟨?_, hs⟩
  simp only [step, ha]
  rcases s.next.1 with e | e <;> rfl

theorem step_demand (h : Resumes k past s t) :
    (t.step .demand).1 = shiftAnswer k (s.step .demand).1 ∧
      Resumes k past (s.step .demand).2 (t.step .demand).2 := by
  obtain ⟨ha, hs⟩ := h.next
  simp only [step, demand]
  generalize s.next = r, t.next = r' at ha hs
  obtain ⟨answer, s'⟩ := r
  obtain ⟨answer', t'⟩ := r'
  cases ha
  rcases answer with e | _ | e
  · exact ⟨rfl, hs⟩
  · exact ⟨rfl, hs⟩
  · exact ⟨rfl, hs⟩

theorem step_drain (h : Resumes k past s t) :
    (t.step .drain).1 = shiftAnswer k (s.step .drain).1 ∧
      Resumes k past (s.step .drain).2 (t.step .drain).2 := by
  obtain ⟨ha, hs⟩ := h.drain none
  refine ⟨?_, hs⟩
  have hgot : (t.drain none).2.entries.toList.drop t.entries.size =
      (s.drain none).2.entries.toList.drop s.entries.size := by
    rw [hs.entries, h.entries, Array.toList_append, Array.size_append,
      ← Array.length_toList, List.drop_length_add_append]
  simp only [step, drainAll, hgot, ha]
  cases (s.drain none).1 <;> rfl

theorem askLater (h : Resumes k past s t) (before i : Nat) (q : Deferred.Step) :
    (t.askLater (past.size + before) i q).1 = shiftAnswer k (s.askLater before i q).1 ∧
      Resumes k past (s.askLater before i q).2 (t.askLater (past.size + before) i q).2 := by
  obtain ⟨profile, intake, phase, counted, entries, tallies, log⟩ := t
  obtain rfl : entries = past ++ s.entries := h.entries
  unfold Session.askLater
  by_cases hi : before + i < s.entries.size
  · have hsum : past.size + before + i = past.size + (before + i) := Nat.add_assoc _ _ _
    have hlt : past.size + (before + i) < (past ++ s.entries).size := by
      rw [Array.size_append]
      omega
    have hvalues := Entry.askValues_append past s.entries ⟨before + i, hi⟩ hlt Entry.listField q
    simp only [hsum, dif_pos hlt, dif_pos hi, hvalues]
    refine ⟨?_, { h with entries := rfl }⟩
    rcases (Entry.askValues s.entries ⟨before + i, hi⟩ Entry.listField q).1 with e | a <;> rfl
  · have hge : ¬ past.size + before + i < (past ++ s.entries).size := by
      rw [Array.size_append]
      omega
    rw [dif_neg hi, dif_neg hge]
    exact ⟨rfl, h⟩

/-- A session that resumes another one answers every step as that does, with more bytes counted. -/
theorem later (h : Resumes k past s t) (before : Nat) (op : LaterStep) :
    (t.later (past.size + before) op).1 = shiftAnswer k (s.later before op).1 ∧
      Resumes k past (s.later before op).2 (t.later (past.size + before) op).2 := by
  cases op with
  | next => exact h.step_next
  | demand => exact h.step_demand
  | drain => exact h.step_drain
  | close => exact ⟨rfl, h.close⟩
  | values i q => exact h.askLater before i q

end Resumes

theorem laterTranscript_resumes (h : Resumes k past s t) (before : Nat) (ops : List LaterStep) :
    t.laterTranscript (past.size + before) ops =
      (s.laterTranscript before ops).map (Report.shift k) := by
  induction ops generalizing s t with
  | nil => rfl
  | cons op ops ih =>
    obtain ⟨ha, hs⟩ := h.later before op
    simp only [laterTranscript, List.map_cons, Report.shift, ha, hs.phase, hs.bytesRead, ih hs]

/-! ### Twins -/

theorem askLater_alike (h : Twins buffering s t) (before i : Nat) (q : Deferred.Step) :
    Alike (s.askLater before i q) (t.askLater before i q) := by
  obtain ⟨profile, intake, phase, counted, entries, tallies, log⟩ := t
  obtain rfl : entries = s.entries := h.entries.symm
  unfold askLater
  split
  · exact ⟨rfl, withEntries_twins h _⟩
  · exact ⟨rfl, h⟩

theorem later_alike (h : Twins buffering s t) (before : Nat) (op : LaterStep) :
    Alike (s.later before op) (t.later before op) := by
  cases op with
  | next => exact step_alike h .next
  | demand => exact step_alike h .demand
  | drain => exact step_alike h .drain
  | close => exact step_alike h .close
  | values i q => exact askLater_alike h before i q

theorem laterTranscript_twins (h : Twins buffering s t) (before : Nat) (ops : List LaterStep) :
    s.laterTranscript before ops = t.laterTranscript before ops := by
  induction ops generalizing s t with
  | nil => rfl
  | cons op ops ih =>
    obtain ⟨ha, hs⟩ := later_alike h before op
    simp only [laterTranscript, ha, hs.phase, hs.bytesRead, ih hs]

/-! ### Two sessions before the same bytes -/

/-- A session that goes on as `s` does, but has counted and delivered nothing yet. -/
def anew (s : Session) : Session where
  profile := s.profile
  intake := { s.intake with input := { s.intake.input with consumed := 0 } }
  phase := s.phase

/-- A session resumes the one that goes on as it does. -/
theorem resumes_anew (s : Session) : Resumes s.bytesRead s.entries s.anew s where
  profile := rfl
  intake := by simp only [Intake.shift, Input.shift, anew, bytesRead, Nat.zero_add]
  phase := rfl
  entries := (Array.append_empty).symm

variable {p : Profile} {version m n : Nat} {bs : Bytes}

/-- Two sessions before the same bytes go on as twins. -/
theorem anew_twins (hs : Before p version bs m s) (ht : Before p version bs n t) :
    Twins buffering s.anew t.anew where
  profile := by
    have hp : t.anew.profile = s.anew.profile := ht.profile.trans hs.profile.symm
    rw [hp]
    exact .refl _
  intake _ := ⟨⟨bs, 0, { hs.holds with consumed := rfl }, { ht.holds with consumed := rfl }⟩,
    hs.notes.trans ht.notes.symm⟩
  bytesRead := rfl
  closeCalls := hs.holds.neverClosed.trans ht.holds.neverClosed.symm
  phase := hs.phase.trans ht.phase.symm
  counted := rfl
  entries := rfl
  tallies := rfl
  log := rfl

/-- **Two sessions before the same bytes go on in the same way**, each from its own count. -/
theorem laterTranscript_of_before (hs : Before p version bs m s) (ht : Before p version bs n t)
    (ops : List LaterStep) : ∃ reports : List Report,
      s.laterTranscript s.entries.size ops = reports.map (Report.shift s.bytesRead) ∧
        t.laterTranscript t.entries.size ops = reports.map (Report.shift t.bytesRead) := by
  refine ⟨s.anew.laterTranscript 0 ops, laterTranscript_resumes (resumes_anew s) 0 ops, ?_⟩
  rw [laterTranscript_twins (anew_twins hs ht)]
  exact laterTranscript_resumes (resumes_anew t) 0 ops

/-- What draining two sessions before the same bytes has in common. -/
structure DrainedAlike (s t : Session) (d d' : Ending × Session) : Prop where
  ending : ∃ ending : Ending, d.1 = ending.shift s.bytesRead ∧ d'.1 = ending.shift t.bytesRead
  entries : ∃ later, d.2.entries = s.entries ++ later ∧ d'.2.entries = t.entries ++ later
  phase : d.2.phase = d'.2.phase
  bytesRead : ∃ count, d.2.bytesRead = count + s.bytesRead ∧ d'.2.bytesRead = count + t.bytesRead

/-- They are drained in the same way. -/
theorem drain_of_before (hs : Before p version bs m s) (ht : Before p version bs n t)
    (limit : Option Nat) : DrainedAlike s t (s.drain limit) (t.drain limit) := by
  obtain ⟨hending, hd⟩ := drain_alike (anew_twins hs ht) limit
  obtain ⟨hes, hrs⟩ := (resumes_anew s).drain limit
  obtain ⟨het, hrt⟩ := (resumes_anew t).drain limit
  exact
    { ending := ⟨_, hes, by rw [het, hending]⟩
      entries := ⟨_, hrs.entries, by rw [hrt.entries, hd.entries]⟩
      phase := by rw [hrs.phase, hrt.phase, hd.phase]
      bytesRead := ⟨_, hrs.bytesRead, by rw [hrt.bytesRead, hd.bytesRead]⟩ }

end Session

end RedisDump
