import RedisDump.Proofs.Extension
import RedisDump.Proofs.Wire.Record

/-!
# Entries of bytes that an input gives

A reader of entries that succeeds on bytes in memory, or refuses them, does so on any input that
gives them: the two are run side by side, and the run in memory never asks for more
(`ReadRecord.entry_of_gives`, `ReadRecord.entry_of_gives_refused`).
-/

namespace RedisDump

/-- The state of a reader with just the bytes `bs` to come, which lie in memory. -/
def Intake.withBytes (s : Intake) (bs : Bytes) : Intake :=
  { s with input := { source := .ofBytes bs, bufferSize := 1, consumed := s.input.consumed } }

theorem Intake.holds_withBytes (s : Intake) (bs : Bytes) :
    Input.Holds (bs ++ []) s.input.consumed (s.withBytes bs).input where
  flows := ⟨rfl, show (0 : Int) < 1 by decide, show MachineWord.Fits 1 by decide⟩
  pending := (List.append_nil bs).symm
  consumed := rfl
  isOpen := rfl
  neverClosed := rfl

/-- An input that holds bytes, and one that gives them and is `after` then. -/
def offering (after : Input) : Comparison Input where
  near i j := ∃ bs n, Input.Holds bs n i ∧ Input.Gives bs j after
  shared _ := True
  cut e _ := e.isTruncation = true

theorem offering_stepwise (after : Input) : (offering after).Stepwise where
  next := by
    rintro needed i j ⟨bs, n, hi, hj⟩
    cases hj with
    | nil =>
      obtain ⟨i', hr, -⟩ := Read.next_of_holds_nil hi needed
      rw [hr]
      exact .cut rfl
    | cons hbyte hgives =>
      obtain ⟨i', hr, hi'⟩ := Read.next_of_holds_cons hi needed
      rw [hr, Read.next_of_ok hbyte needed]
      exact .ok ⟨_, n + 1, hi', hgives⟩
  verdict _ _ := trivial

/-- The reader refuses just the bytes `bs` with `e`, whatever follows, if the notes are `notes`. -/
def RecordRefuses {α : Type} (bs : Bytes) (r : ReadRecord α) (notes : KeyNotes) (e : ReadError) :
    Prop :=
  ∀ (rest : Bytes) (n : Nat) (s : Intake), Input.Holds (bs ++ rest) n s.input →
    s.notes = notes → ∃ s', r s = .error e s' ∧ Input.Holds rest (n + bs.length) s'.input

namespace RecordRefuses

variable {α β : Type} {notes mid : KeyNotes} {e : ReadError}

theorem throw (e : ReadError) (notes : KeyNotes) :
    RecordRefuses [] (MonadExcept.throw e : ReadRecord α) notes e :=
  fun _ _ s hs _ => ⟨s, rfl, hs⟩

/-- What is read first is not refused. -/
theorem bind {bs cs : Bytes} {r : ReadRecord α} {f : α → ReadRecord β} {a : α}
    (hr : RecordReads bs r notes a mid) (hf : RecordRefuses cs (f a) mid e) :
    RecordRefuses (bs ++ cs) (r >>= f) notes e := by
  intro rest n s hs hn
  rw [List.append_assoc] at hs
  obtain ⟨s₁, h₁, hs₁, hn₁⟩ := hr _ n s hs hn
  obtain ⟨s₂, h₂, hs₂⟩ := hf _ _ s₁ hs₁ hn₁
  refine ⟨s₂, (bind_of_ok h₁).trans h₂, ?_⟩
  rwa [List.length_append, ← Nat.add_assoc]

/-- What is read first is refused. -/
theorem bindLeft {bs : Bytes} {r : ReadRecord α} {f : α → ReadRecord β}
    (hr : RecordRefuses bs r notes e) : RecordRefuses bs (r >>= f) notes e := by
  intro rest n s hs hn
  obtain ⟨s', h, hs'⟩ := hr rest n s hs hn
  exact ⟨s', bind_of_error h, hs'⟩

end RecordRefuses

section

open ReadRecord

variable {p : Profile} {version : Nat} {notes : KeyNotes} {e : ReadError}

/-- A record that starts with an opcode which the snapshot may hold is refused for what follows. -/
theorem refuses_record_opcode {op : Opcode} {bs : Bytes}
    (hv : p.refuses (.opcode op) version = false)
    (h : RecordRefuses bs (opcodeBody p version op) notes e) :
    RecordRefuses (op.code :: bs) (record p version) notes e := by
  refine RecordRefuses.bind (RecordReads.input (Reads.byte op.code) notes) ?_
  rw [Opcode.ofByte?_code]
  exact RecordRefuses.bind (reads_gate hv notes) h

/-- A record that starts with the byte of a kind of value which the snapshot may hold is refused for
what follows. -/
theorem refuses_record_key {kind : ValueKind} {bs : Bytes}
    (hv : p.refuses (.value kind) version = false)
    (h : RecordRefuses bs (keyValue p version kind) notes e) :
    RecordRefuses (kind.code :: bs) (record p version) notes e := by
  refine RecordRefuses.bind (RecordReads.input (Reads.byte kind.code) notes) ?_
  rw [ofByte?_kind_code]
  refine RecordRefuses.bindLeft ?_
  unfold keyRecord
  rw [ValueCode.ofByte?_known]
  exact RecordRefuses.bind (reads_gate hv notes) h

theorem refuses_entry_of_record {bs : Bytes} (h : RecordRefuses bs (record p version) notes e) :
    RecordRefuses bs (entry p version) notes e := by
  intro rest n s hs hn
  obtain ⟨s', hr, hs'⟩ := h rest n s hs hn
  exact ⟨s', entry_of_error hr, hs'⟩

/-- Marks are read one after the other before what is refused. -/
theorem refuses_entry_marks {marks : List Mark} {ms cs : Bytes}
    (hm : Wire.Sequence (Wire.MarkForm p version) marks ms)
    (he : RecordRefuses cs (record p version) (Mark.noteAll marks notes) e) :
    RecordRefuses (ms ++ cs) (entry p version) notes e := by
  induction hm generalizing notes with
  | nil => exact refuses_entry_of_record he
  | cons hform _ ih =>
    intro rest n s hs hn
    rw [List.append_assoc, List.append_assoc] at hs
    obtain ⟨s₁, h₁, hs₁, hn₁⟩ := hform.reads notes _ n s hs hn
    rw [← List.append_assoc] at hs₁
    obtain ⟨s₂, h₂, hs₂⟩ := ih he _ _ s₁ hs₁ hn₁
    refine ⟨s₂, (entry_of_none h₁).trans h₂, ?_⟩
    rwa [List.append_assoc, List.length_append, ← Nat.add_assoc]

end

namespace ReadRecord

variable {p : Profile} {version : Nat} {bs : Bytes} {after : Input} {s : Intake}

/-- Bytes in memory face an input that gives them. -/
theorem near_of_gives (hg : Input.Gives bs s.input after) :
    (offering after).onIntake.near (s.withBytes bs) s := by
  have hi := s.holds_withBytes bs
  rw [List.append_nil] at hi
  exact ⟨⟨bs, s.input.consumed, hi, hg⟩, rfl⟩

theorem eq_of_near_nil {i : Intake} {n : Nat} (hi : Input.Holds [] n i.input)
    (h : (offering after).onIntake.near i s) : s = { input := after, notes := i.notes } := by
  obtain ⟨⟨bs, n', hi', hg⟩, hn⟩ := h
  have hbs : bs = [] := hi'.pending.symm.trans hi.pending
  rw [hbs] at hg
  rw [Input.gives_nil_iff.mp hg, hn]

/-- What is read as an entry from bytes is read from every input that gives them. -/
theorem entry_of_gives {e : Entry Packed} {notes : KeyNotes}
    (he : RecordReads bs (entry p version) s.notes e notes) (hg : Input.Gives bs s.input after) :
    entry p version s = .ok e { input := after, notes := notes } := by
  have hnear := near_of_gives hg
  have hf : (offering after).onIntake.Follows (entry p version (s.withBytes bs))
      (entry p version s) := entry_follows (offering_stepwise after) rfl hnear
  obtain ⟨i, hr, hi, hn⟩ := he [] _ _ (s.holds_withBytes bs) rfl
  rw [hr] at hf
  generalize entry p version s = x at hf
  cases hf with
  | ok h => rw [eq_of_near_nil hi h, hn]

/-- What is refused from bytes is refused from every input that gives them. -/
theorem entry_of_gives_refused {e : ReadError} (he : RecordRefuses bs (entry p version) s.notes e)
    (hverdict : e.isVerdict = true) (hg : Input.Gives bs s.input after) :
    ∃ s', entry p version s = .error e s' ∧ s'.input = after := by
  have hnear := near_of_gives hg
  have hf : (offering after).onIntake.Follows (entry p version (s.withBytes bs))
      (entry p version s) := entry_follows (offering_stepwise after) rfl hnear
  obtain ⟨i, hr, hi⟩ := he [] _ _ (s.holds_withBytes bs) rfl
  rw [hr] at hf
  generalize entry p version s = x at hf
  cases hf with
  | error _ h => exact ⟨_, rfl, by rw [eq_of_near_nil hi h]⟩
  | cut h =>
    have hcut : e.isTruncation = true := h
    rw [ReadError.isTruncation_of_isVerdict hverdict] at hcut
    cases hcut

end ReadRecord

/-- A session over a source that gives bytes which are refused ends just behind them, and has
failed unless the refusal could not be made. -/
theorem Session.readEntry_of_gives_refused {p : Profile} {version : Nat} {s : Session} {bs : Bytes}
    {after : Input} {e : ReadError} (hprofile : s.profile = p) (hphase : s.phase = .ready version)
    (hverdict : e.isVerdict = true)
    (he : RecordRefuses bs (ReadRecord.entry p version) s.intake.notes e)
    (hg : Input.Gives bs s.intake.input after) :
    ∃ s', s.readEntry version = (.error (.reading e), s') ∧ s'.intake.input = after ∧
      s'.phase = if e.isFault then .failed (some version) else .ready version := by
  obtain ⟨intake, hr, hafter⟩ := ReadRecord.entry_of_gives_refused he hverdict hg
  rw [← hprofile] at hr
  refine ⟨_, readEntry_of_error hr, ?_, ?_⟩
  · rw [intake_fail, hafter]
  · unfold fail
    split
    · rw [hphase]
      rfl
    · exact hphase

end RedisDump
