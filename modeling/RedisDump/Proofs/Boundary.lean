import RedisDump.Proofs.Outcome.Sessions

/-!
# Between two entries

A session stands between two entries when its header has just been accepted, or when it is ready
after steps of which no read has failed (`Session.Between`). It has noted nothing then: an entry
that is returned takes all notes with it, whichever there were before
(`ReadRecord.notes_of_entry`), and no other step changes them.
-/

namespace RedisDump

/-! ### Notes -/

theorem KeyNotes.eq_of_isEmpty {n : KeyNotes} (h : n.isEmpty = true) : n = {} := by
  obtain ⟨expireTimeMs?, freq?, idleSeconds?⟩ := n
  simp only [isEmpty, Bool.and_eq_true, Option.isNone_iff_eq_none] at h
  obtain ⟨⟨rfl, rfl⟩, rfl⟩ := h
  rfl

namespace ReadRecord

variable {p : Profile} {version : Nat} {s s' : Intake}

theorem notes_of_fromInput {α : Type} {r : Read α} {a : α} (h : fromInput r s = .ok a s') :
    s'.notes = s.notes := by
  unfold fromInput at h
  split at h
  · cases h
    rfl
  · cases h

/-- A note is no entry. -/
theorem note_ne_some {α : Type} {r : Read α} {f : α → KeyNotes → KeyNotes} {e : Entry Packed} :
    note r f s ≠ .ok (some e) s' := by
  intro h
  obtain ⟨a, s₁, -, h⟩ := bind_eq_ok h
  obtain ⟨_, s₂, -, h⟩ := bind_eq_ok h
  cases h

/-- An entry that is no key is read only when nothing has been noted. -/
theorem notes_of_standalone {op : Opcode} {r : Read (Entry Packed)} {e : Option (Entry Packed)}
    (h : standalone op r s = .ok e s') : s'.notes = {} := by
  obtain ⟨s₁, s₂, hget, h⟩ := bind_eq_ok h
  cases hget
  split at h
  · rename_i hempty
    obtain ⟨e', s₃, hread, h⟩ := bind_eq_ok h
    cases h
    rw [notes_of_fromInput hread, KeyNotes.eq_of_isEmpty hempty]
  · cases h

theorem notes_of_opcodeBody {op : Opcode} {e : Entry Packed}
    (h : opcodeBody p version op s = .ok (some e) s') : s'.notes = {} := by
  unfold opcodeBody at h
  cases op with
  | function2 | functionPreGa | moduleAux => cases h
  -- a mark is noted, and what is returned then is no entry
  | idle | freq | expireTimeMs | expireTime => exact absurd h note_ne_some
  | aux | resizeDb | selectDb | eof => exact notes_of_standalone h

/-- A key takes what has been noted for it. -/
theorem notes_of_keyValue {kind : ValueKind} {e : Entry Packed}
    (h : keyValue p version kind s = .ok e s') : s'.notes = {} := by
  obtain ⟨key, s₁, -, h⟩ := bind_eq_ok h
  obtain ⟨values, s₂, -, h⟩ := bind_eq_ok h
  obtain ⟨s₃, s₄, -, h⟩ := bind_eq_ok h
  obtain ⟨_, s₅, hnote, h⟩ := bind_eq_ok h
  cases hnote
  cases h
  rfl

theorem notes_of_keyRecord {b : UInt8} {e : Entry Packed}
    (h : keyRecord p version b s = .ok e s') : s'.notes = {} := by
  unfold keyRecord at h
  rcases hb : ValueCode.ofByte? b with _ | kind | kind
  · rw [hb] at h
    cases h
  · rw [hb] at h
    obtain ⟨_, s₁, -, h⟩ := bind_eq_ok h
    exact notes_of_keyValue h
  · rw [hb] at h
    cases h

theorem notes_of_record {e : Entry Packed} (h : record p version s = .ok (some e) s') :
    s'.notes = {} := by
  obtain ⟨b, s₁, -, h⟩ := bind_eq_ok h
  cases hb : Opcode.ofByte? b with
  | some op =>
    rw [hb] at h
    obtain ⟨_, s₂, -, h⟩ := bind_eq_ok h
    exact notes_of_opcodeBody h
  | none =>
    rw [hb] at h
    obtain ⟨e', s₂, hkey, h⟩ := bind_eq_ok h
    cases h
    exact notes_of_keyRecord hkey

/-- **An entry leaves no notes behind**, whatever had been noted before it. -/
theorem notes_of_entry {e : Entry Packed} (h : entry p version s = .ok e s') : s'.notes = {} := by
  fun_induction entry p version s with
  | case1 => cases h
  | case2 s e₁ s₁ hr =>
    cases h
    exact notes_of_record hr
  | case3 s s₁ hr ih => exact ih h

end ReadRecord

namespace Session

variable {p : Profile} {source : Source} {version : Nat} {s s' : Session}

/-! ### Successful reads -/

/-- Whether the reading of a step has failed. -/
def readFailed : Except StepError Answer → Bool
  | .error (.session _) | .ok (.entries _ (some _)) => true
  | _ => false

/-- No read fails in a sequence of steps. -/
def ReadsSucceed (s : Session) : List Step → Prop
  | [] => True
  | op :: ops => readFailed (s.step op).1 = false ∧ ReadsSucceed (s.step op).2 ops

/-- An entry is read by a session that is ready, if need be as soon as its header is accepted. -/
theorem exists_readEntry {e : Entry Packed} (h : s.next = (.ok (some e), s')) :
    ∃ (t : Session) (version : Nat), t.phase = .ready version ∧
      t.readEntry version = (.ok (some e), s') := by
  unfold next at h
  split at h
  · cases h
  · cases h
  · cases h
  · rename_i hp
    exact ⟨s, _, hp, h⟩
  · split at h
    · rename_i ho
      exact ⟨_, _, phase_of_openSnapshot ho, h⟩
    · cases h

/-- **After an entry nothing is noted.** -/
theorem notes_next_entry {e : Entry Packed} (h : s.next = (.ok (some e), s')) :
    s'.intake.notes = {} := by
  obtain ⟨t, version, -, hread⟩ := exists_readEntry h
  unfold readEntry at hread
  split at hread
  · rename_i hr
    cases hread
    have hn := ReadRecord.notes_of_entry hr
    cases e <;> exact hn
  · cases hread

theorem eq_of_next_none (h : s.next = (.ok none, s')) : s' = s := by
  unfold next readEntry at h
  split at h
  · cases h
  · cases h
  · cases h
    rfl
  · split at h
    · cases h
    · cases h
  · split at h
    · split at h
      · cases h
      · cases h
    · cases h

/-- A read that succeeds notes nothing. -/
theorem notes_next {e : Option (Entry Packed)} (h : s.next = (.ok e, s'))
    (hs : s.intake.notes = {}) : s'.intake.notes = {} := by
  cases e with
  | none => rwa [eq_of_next_none h]
  | some e => exact notes_next_entry h

theorem notes_drain {limit : Option Nat} (h : (s.drain limit).1.failure? = none)
    (hs : s.intake.notes = {}) : (s.drain limit).2.intake.notes = {} := by
  fun_induction drain s limit with
  | case1 s => exact hs
  | case2 s limit _ e s₁ hn ih => exact ih h (notes_next hn hs)
  | case3 s limit _ s₁ hn => exact notes_next hn hs
  | case4 s limit _ e s₁ hn => cases h

theorem notes_close (hs : s.intake.notes = {}) : s.close.intake.notes = {} := by
  unfold close
  split
  · exact hs
  · exact hs

theorem notes_demand (h : readFailed s.demand.1 = false) (hs : s.intake.notes = {}) :
    s.demand.2.intake.notes = {} := by
  unfold demand at h ⊢
  cases hn : s.next with
  | mk answer t =>
    rw [hn] at h
    rcases answer with e | _ | e
    · cases h
    · exact notes_next hn hs
    · exact notes_next hn hs

/-- A step in which no read fails notes nothing. -/
theorem notes_step {op : Step} (h : readFailed (s.step op).1 = false)
    (hs : s.intake.notes = {}) : (s.step op).2.intake.notes = {} := by
  cases op with
  | next =>
    cases hn : s.next with
    | mk answer t =>
      simp only [step, hn] at h ⊢
      cases answer with
      | error e => cases h
      | ok e => exact notes_next hn hs
  | demand => exact notes_demand h hs
  | drain =>
    refine notes_drain ?_ hs
    simp only [step, drainAll] at h
    cases hf : (s.drain none).1.failure? with
    | none => rfl
    | some e =>
      rw [hf] at h
      cases h
  | close => exact notes_close hs
  | allValues | metrics | log | closeCalls | ask => exact hs

theorem notes_run {ops : List Step} (h : ReadsSucceed s ops) (hs : s.intake.notes = {}) :
    (s.run ops).intake.notes = {} := by
  induction ops generalizing s with
  | nil => exact hs
  | cons op ops ih => exact ih h.2 (notes_step h.1 hs)

/-! ### Sessions between two entries -/

/-- The sessions over a source that stand between two entries of a snapshot of a version: those
that have just accepted its header, and those that are ready after steps of which no read has
failed. -/
inductive Between (p : Profile) (source : Source) (version : Nat) : Session → Prop where
  | opened {s : Session} : (start p source).openSnapshot = (.ok version, s) →
    Between p source version s
  | after {ops : List Step} : ReadsSucceed (start p source) ops →
    ((start p source).run ops).phase = .ready version →
      Between p source version ((start p source).run ops)

namespace Between

theorem phase (h : Between p source version s) : s.phase = .ready version := by
  cases h with
  | opened h => exact phase_of_openSnapshot h
  | after _ h => exact h

/-- Nothing is noted between two entries. -/
theorem notes (h : Between p source version s) : s.intake.notes = {} := by
  cases h with
  | opened h =>
    unfold openSnapshot at h
    split at h
    · rename_i hr
      cases h
      exact ReadRecord.notes_of_fromInput hr
    · cases h
  | after h _ => exact notes_run h rfl

/-- What every session keeps holds between two entries. -/
theorem keeps {P : Input → Prop} {E : ReadError → Prop} (h : Between p source version s)
    (hr : Read.Rules P E p) (hs : P { source, bufferSize := p.bufferSize }) :
    Keeps p P s := by
  have hstart : Keeps p P (start p source) := keeps_start hs
  cases h with
  | opened h =>
    have ho := hstart.openSnapshot hr rfl
    rwa [h] at ho
  | after _ _ => exact hstart.run hr _

theorem profile (h : Between p source version s) : s.profile = p :=
  (h.keeps (.anything p) trivial).profile

end Between

end Session

end RedisDump
