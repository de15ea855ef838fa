import RedisDump.Proofs.Boundary
import RedisDump.Proofs.Wire.Given
import RedisDump.Proofs.Wire.Snapshot

/-!
# Metadata of keys

The marks before a key are folded into that key and into nothing else. Of the marks for one slot
the last one counts, whatever stands between them, so that marks for different slots may change
places (`keyFields_of_slots`). A session between two entries, over any source, delivers the key with
the fields of its marks; it refuses the opcode of any other record behind a mark, without having
read on; and with an entry nothing is left noted for a later one (`foldsMetadata`).
-/

namespace RedisDump

/-! ### Slots -/

/-- The places for metadata of a key. -/
inductive Mark.Slot where
  | expiry
  | frequency
  | idle
  deriving DecidableEq, Repr

namespace Mark

/-- The place that a mark fills: both sorts of expiry share one. -/
def slot : Mark → Slot
  | expireSeconds _ | expireMs _ => .expiry
  | frequency _ => .frequency
  | idle _ => .idle

/-- A field that depends on one slot is found among the marks for that slot. -/
theorem filterMap_filter_slot {α : Type} {f : Mark → Option α} {k : Slot}
    (h : ∀ m : Mark, m.slot ≠ k → f m = none) (marks : List Mark) :
    (marks.filter fun m => m.slot = k).filterMap f = marks.filterMap f := by
  induction marks with
  | nil => rfl
  | cons m marks ih =>
    by_cases hm : m.slot = k
    · rw [List.filter_cons_of_pos (by simpa using hm), List.filterMap_cons, ih, List.filterMap_cons]
    · rw [List.filter_cons_of_neg (by simpa using hm), ih, List.filterMap_cons_none (h m hm)]

/-- Marks that agree slot by slot, each in its order, agree in every field of one slot. -/
theorem filterMap_of_slots {α : Type} {f : Mark → Option α} {k : Slot}
    (h : ∀ m : Mark, m.slot ≠ k → f m = none) {marks marks' : List Mark}
    (hk : (marks.filter fun m => m.slot = k) = marks'.filter fun m => m.slot = k) :
    marks.filterMap f = marks'.filterMap f := by
  rw [← filterMap_filter_slot h marks, hk, filterMap_filter_slot h marks']

end Mark

/-- **Marks for different slots may change places.** -/
theorem keyFields_of_slots {marks marks' : List Mark}
    (h : ∀ k : Mark.Slot, (marks.filter fun m => m.slot = k) = marks'.filter fun m => m.slot = k)
    (name : Bytes) (kind : ValueKind) :
    Record.keyFields marks name kind = Record.keyFields marks' name kind := by
  have hexpiry : marks.filterMap Mark.expireTimeMs? = marks'.filterMap Mark.expireTimeMs? := by
    refine Mark.filterMap_of_slots (fun m hm => ?_) (h .expiry)
    cases m with
    | expireSeconds | expireMs => exact absurd rfl hm
    | frequency | idle => rfl
  have hfreq : marks.filterMap Mark.freq? = marks'.filterMap Mark.freq? := by
    refine Mark.filterMap_of_slots (fun m hm => ?_) (h .frequency)
    cases m with
    | frequency => exact absurd rfl hm
    | expireSeconds | expireMs | idle => rfl
  have hidle : marks.filterMap Mark.idleSeconds? = marks'.filterMap Mark.idleSeconds? := by
    refine Mark.filterMap_of_slots (fun m hm => ?_) (h .idle)
    cases m with
    | idle => exact absurd rfl hm
    | expireSeconds | expireMs | frequency => rfl
  simp only [Record.keyFields, hexpiry, hfreq, hidle]

/-! ### Marks before another record -/

theorem Mark.isEmpty_note (m : Mark) (notes : KeyNotes) : (m.note notes).isEmpty = false := by
  cases m <;> simp [note, expireTimeMs?, freq?, idleSeconds?, KeyNotes.isEmpty]

/-- A mark leaves a note, whatever other marks follow it. -/
theorem Mark.isEmpty_noteAll {marks : List Mark} (h : marks ≠ []) (notes : KeyNotes) :
    (noteAll marks notes).isEmpty = false := by
  rw [← List.dropLast_concat_getLast h, noteAll, List.foldl_append]
  exact isEmpty_note _ _

/-- Whether an opcode starts a record that is no key. -/
def Opcode.isStandalone : Opcode → Bool
  | eof | selectDb | resizeDb | aux => true
  | _ => false

/-- The error of an opcode behind the marks of a key. -/
def strayError (p : Profile) (version : Nat) (op : Opcode) : FormatError :=
  if p.refuses (.opcode op) version then .tooNew (.opcode op) version else .strayMetadata op

open ReadRecord

section

variable {p : Profile} {version : Nat} {notes : KeyNotes} {op : Opcode}

theorem refuses_standalone (h : notes.isEmpty = false) (op : Opcode) (r : Read (Entry Packed)) :
    RecordRefuses [] (standalone op r) notes (.format (.strayMetadata op)) := by
  intro rest n s hs hn
  refine ⟨s, ?_, hs⟩
  have hempty : s.notes.isEmpty = false := by rw [hn, h]
  have hget : (get : ReadRecord Intake) s = .ok s s := rfl
  unfold standalone
  rw [bind_of_ok hget, hempty]
  rfl

theorem refuses_opcodeBody (h : notes.isEmpty = false) (hop : op.isStandalone = true) :
    RecordRefuses [] (opcodeBody p version op) notes (.format (.strayMetadata op)) := by
  unfold opcodeBody
  cases op with
  | eof | selectDb | resizeDb | aux => exact refuses_standalone h _ _
  | idle | freq | expireTimeMs | expireTime | moduleAux | function2 | functionPreGa => cases hop

/-- The opcode of a record that is no key is refused as soon as it is read, if there are notes. -/
theorem refuses_record (h : notes.isEmpty = false) (hop : op.isStandalone = true) :
    RecordRefuses [op.code] (record p version) notes (.format (strayError p version op)) := by
  unfold strayError
  cases hv : p.refuses (.opcode op) version with
  | true =>
    refine RecordRefuses.bind (RecordReads.input (Reads.byte op.code) notes) ?_
    rw [Opcode.ofByte?_code]
    -- the gate comes first: the notes are not looked at
    refine RecordRefuses.bindLeft ?_
    unfold gate
    rw [hv]
    exact .throw _ notes
  | false => exact refuses_record_opcode hv (refuses_opcodeBody h hop)

end

/-! ### Sessions -/

namespace Session

variable {p : Profile} {source : Source} {version : Nat} {s : Session}

/-- What becomes of marks in a session of a version. -/
structure FoldsMetadata (p : Profile) (version : Nat) (s : Session) : Prop where
  /-- A key is delivered with the fields of the marks before it. -/
  key : ∀ (marks : List Mark) (name : Bytes) (content : Content) (bs : Bytes) (after : Input),
    Wire.RecordForm p version (.key marks name content) bs →
      Input.Gives bs s.intake.input after →
        ∃ s', s.next = (.ok (some (.keyValue (Record.keyFields marks name content.kind)
            (content.values (p.cutoffFor version)))), s') ∧
          s'.intake = { input := after } ∧ s'.phase = .ready version
  /-- The opcode of any other record is refused behind a mark, and nothing is read behind it. -/
  stray : ∀ (marks : List Mark) (ms : Bytes) (op : Opcode) (after : Input), marks ≠ [] →
    Wire.Sequence (Wire.MarkForm p version) marks ms → op.isStandalone = true →
      Input.Gives (ms ++ [op.code]) s.intake.input after →
        ∃ s', s.next = (.error (.reading (.format (strayError p version op))), s') ∧
          s'.intake.input = after ∧ s'.phase = .failed (some version)

/-- What is read as an entry from bytes is delivered over every source that gives them. -/
theorem next_of_gives (h : Between p source version s) {bs : Bytes} {after : Input}
    {e : Entry Packed} (he : RecordReads bs (entry p version) {} e {})
    (hg : Input.Gives bs s.intake.input after) :
    s.next = (.ok (some e),
      (({ s with intake := { input := after } } : Session).advance version e).deliver e) := by
  rw [← h.notes] at he
  have hr := entry_of_gives he hg
  rw [← h.profile, h.notes] at hr
  exact (next_of_ready h.phase).trans (readEntry_of_ok hr)

theorem next_of_gives_refused (h : Between p source version s) {bs : Bytes} {after : Input}
    {e : FormatError} (he : RecordRefuses bs (entry p version) {} (.format e))
    (hg : Input.Gives bs s.intake.input after) :
    ∃ s', s.next = (.error (.reading (.format e)), s') ∧ s'.intake.input = after ∧
      s'.phase = .failed (some version) := by
  rw [← h.notes] at he
  rw [next_of_ready h.phase]
  exact readEntry_of_gives_refused h.profile h.phase rfl he hg

/-- **Metadata is folded into just its own key.** A session between two entries folds marks into
the key behind them; marks for different slots may change places; and neither after an entry,
whatever the session, nor after successful reads is anything noted. -/
theorem foldsMetadata (h : Between p source version s) :
    FoldsMetadata p version s ∧
      (∀ (marks marks' : List Mark) (name : Bytes) (kind : ValueKind),
        (∀ k : Mark.Slot,
          (marks.filter fun m => m.slot = k) = marks'.filter fun m => m.slot = k) →
            Record.keyFields marks name kind = Record.keyFields marks' name kind) ∧
      (∀ (t t' : Session) (e : Entry Packed), t.next = (.ok (some e), t') →
        t'.intake.notes = {}) ∧
      ∀ ops, ReadsSucceed (start p source) ops →
        ((start p source).run ops).intake.notes = {} := by
  refine ⟨⟨?_, ?_⟩, ?_, fun t t' e => notes_next_entry, fun ops hops => notes_run hops rfl⟩
  · intro marks name content bs after hform hg
    exact ⟨_, next_of_gives h hform.reads hg, rfl, h.phase⟩
  · intro marks ms op after hne hm hop hg
    have hrefused := refuses_entry_marks hm (refuses_record (Mark.isEmpty_noteAll hne {}) hop)
    exact next_of_gives_refused h hrefused hg
  · intro marks marks' name kind hk
    exact keyFields_of_slots hk name kind

/-- A string with a frequency and two times of expiry, the second of them in milliseconds. -/
def markedKey : Bytes :=
  [0xF9, 7, 0xFD, 1, 0, 0, 0, 0xFC, 2, 0, 0, 0, 0, 0, 0, 0, 0, 1, 0x6B, 1, 0x61]

theorem markedKey_form :
    Wire.RecordForm .standard 11
      (.key [.frequency 7, .expireSeconds 1, .expireMs 2] [0x6B] (.string [0x61])) markedKey := by
  have hfreq : Wire.MarkForm .standard 11 (.frequency 7) [0xF9, 7] := .intro rfl (.frequency 7)
  have hseconds : Wire.MarkForm .standard 11 (.expireSeconds 1) [0xFD, 1, 0, 0, 0] :=
    .intro rfl (.expireSeconds (by decide))
  have hms : Wire.MarkForm .standard 11 (.expireMs 2) [0xFC, 2, 0, 0, 0, 0, 0, 0, 0] :=
    .intro rfl (.expireMs (by decide))
  have hname : Wire.Text Profile.standard.textLimit [0x6B] [1, 0x6B] :=
    .raw (by decide) (.six (by decide))
  have hvalue : Wire.Text Profile.standard.textLimit [0x61] [1, 0x61] :=
    .raw (by decide) (.six (by decide))
  exact .key (.cons hfreq (.cons hseconds (.cons hms .nil))) rfl hname hvalue

/-- The first key of a snapshot, of whose two times of expiry the second one counts. -/
theorem foldsMetadata_markedKey : ∃ s s',
    Between .standard (.ofBytes (Read.fixedLetters ++ Wire.versionField 11 ++ markedKey)) 11 s ∧
      s.next = (.ok (some (.keyValue
        { key := [0x6B], kind := .string, expireTimeMs? := some 2, freq? := some 7 }
        (.ofElements [[0x61]]))), s') := by
  have hsource : (Source.ofBytes (Read.fixedLetters ++ Wire.versionField 11 ++
      (markedKey ++ []))).Delivers _ Profile.standard.bufferSize := .contents (by decide)
  obtain ⟨s, hopen, hs, -⟩ := openSnapshot_header (by decide) (by decide) hsource
  obtain ⟨after, hg⟩ := hs.holds.gives
  obtain ⟨s', hn, -⟩ := (foldsMetadata (.opened hopen)).1.key _ _ _ _ after markedKey_form hg
  exact ⟨s, s', .opened hopen, hn⟩

end Session

end RedisDump
