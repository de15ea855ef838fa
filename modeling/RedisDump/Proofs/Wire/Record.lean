import RedisDump.Proofs.Wire.Value

/-!
# Records on the wire

The records of a snapshot, and the forms in which they may stand in it. A key comes after any
number of marks, which hold its metadata; of two marks of one sort the later one counts. Every
form of a record is read as its entry (`RecordForm.reads`), and no note is left behind.
-/

namespace RedisDump

/-! ### Records -/

/-- A piece of metadata of the next key. -/
inductive Mark where
  | expireSeconds (n : Nat)
  | expireMs (n : Nat)
  | frequency (b : UInt8)
  | idle (seconds : Nat)
  deriving DecidableEq, Repr

namespace Mark

/-- The opcode of a mark. -/
def opcode : Mark → Opcode
  | expireSeconds _ => .expireTime
  | expireMs _ => .expireTimeMs
  | frequency _ => .freq
  | idle _ => .idle

/-- The time at which a key expires, in milliseconds. -/
def expireTimeMs? : Mark → Option Nat
  | expireSeconds n => some (n * 1000)
  | expireMs n => some n
  | frequency _ | idle _ => none

/-- How frequently a key is used. -/
def freq? : Mark → Option UInt8
  | frequency b => some b
  | expireSeconds _ | expireMs _ | idle _ => none

/-- The time for which a key has not been used, in seconds. -/
def idleSeconds? : Mark → Option Nat
  | idle n => some n
  | expireSeconds _ | expireMs _ | frequency _ => none

/-- The notes after a mark. -/
def note (m : Mark) (notes : KeyNotes) : KeyNotes where
  expireTimeMs? := m.expireTimeMs?.or notes.expireTimeMs?
  freq? := m.freq?.or notes.freq?
  idleSeconds? := m.idleSeconds?.or notes.idleSeconds?

/-- The notes after a run of marks. -/
def noteAll (marks : List Mark) (notes : KeyNotes) : KeyNotes :=
  marks.foldl (fun notes m => m.note notes) notes

/-- Of the marks that hold a field the last one counts. -/
theorem field_noteAll {α : Type} {f : Mark → Option α} {g : KeyNotes → Option α}
    (h : ∀ m notes, g (m.note notes) = (f m).or (g notes)) (marks : List Mark)
    (notes : KeyNotes) : g (noteAll marks notes) = (marks.filterMap f).getLast?.or (g notes) := by
  induction marks generalizing notes with
  | nil => rfl
  | cons m marks ih =>
    have hstep : noteAll (m :: marks) notes = noteAll marks (m.note notes) := rfl
    rw [hstep, ih, h]
    cases hf : f m with
    | none => simp [hf]
    | some a => simp [hf, List.getLast?_cons]

end Mark

/-- A record of a snapshot other than its end. -/
inductive Record where
  | aux (name value : Bytes)
  | selectDb (id : Nat)
  | resizeDb (size expireSize : Nat)
  | key (marks : List Mark) (name : Bytes) (content : Content)

/-- The fields of a key with its marks. -/
def Record.keyFields (marks : List Mark) (name : Bytes) (kind : ValueKind) : KeyFields where
  key := name
  kind := kind
  expireTimeMs? := (marks.filterMap Mark.expireTimeMs?).getLast?.map Int.ofNat
  idleSeconds? := (marks.filterMap Mark.idleSeconds?).getLast?.map Int.ofNat
  freq? := (marks.filterMap Mark.freq?).getLast?

/-- The entry of a record in a snapshot of the given version. -/
def Record.entry (p : Profile) (version : Nat) : Record → Entry Packed
  | aux name value => .aux name value
  | selectDb id => .selectDb id
  | resizeDb size expireSize => .resizeDb size expireSize
  | key marks name content =>
    .keyValue (keyFields marks name content.kind) (content.values (p.cutoffFor version))

theorem Mark.fields_noteAll (marks : List Mark) (name : Bytes) (kind : ValueKind) :
    (noteAll marks {}).fields name kind = Record.keyFields marks name kind := by
  have he := field_noteAll (f := expireTimeMs?) (g := KeyNotes.expireTimeMs?) (fun _ _ => rfl)
    marks {}
  have hf := field_noteAll (f := freq?) (g := KeyNotes.freq?) (fun _ _ => rfl) marks {}
  have hi := field_noteAll (f := idleSeconds?) (g := KeyNotes.idleSeconds?) (fun _ _ => rfl)
    marks {}
  simp only [Option.or_none] at he hf hi
  simp only [KeyNotes.fields, Record.keyFields, he, hf, hi]

/-! ### Forms -/

namespace Wire

/-- The forms of a mark after its opcode. -/
inductive MarkBody : Mark → Bytes → Prop where
  | expireSeconds {n : Nat} : n < 2 ^ 32 → MarkBody (.expireSeconds n) (Bytes.leBytes 4 n)
  | expireMs {n : Nat} : n < 2 ^ 64 → MarkBody (.expireMs n) (Bytes.leBytes 8 n)
  | frequency (b : UInt8) : MarkBody (.frequency b) [b]
  | idle {n : Nat} {bs : Bytes} : Length n bs → MarkBody (.idle n) bs

/-- The forms of a mark in a snapshot of the given version. -/
inductive MarkForm (p : Profile) (version : Nat) (m : Mark) : Bytes → Prop where
  | intro {bs : Bytes} : p.refuses (.opcode m.opcode) version = false → MarkBody m bs →
    MarkForm p version m (m.opcode.code :: bs)

/-- The forms of a record in a snapshot of the given version. -/
inductive RecordForm (p : Profile) (version : Nat) : Record → Bytes → Prop where
  | aux {name value bs cs : Bytes} : p.refuses (.opcode .aux) version = false →
    Text p.textLimit name bs → Text p.textLimit value cs →
      RecordForm p version (.aux name value) (Opcode.aux.code :: (bs ++ cs))
  | selectDb {id : Nat} {bs : Bytes} : p.refuses (.opcode .selectDb) version = false →
    Length id bs → RecordForm p version (.selectDb id) (Opcode.selectDb.code :: bs)
  | resizeDb {size expireSize : Nat} {bs cs : Bytes} :
    p.refuses (.opcode .resizeDb) version = false → Length size bs → Length expireSize cs →
      RecordForm p version (.resizeDb size expireSize) (Opcode.resizeDb.code :: (bs ++ cs))
  | key {marks : List Mark} {name : Bytes} {content : Content} {ms bs cs : Bytes} :
    Sequence (MarkForm p version) marks ms → p.refuses (.value content.kind) version = false →
    Text p.textLimit name bs → Value p content cs →
      RecordForm p version (.key marks name content) (ms ++ content.kind.code :: (bs ++ cs))

end Wire

/-! ### Readers of records -/

/-- The reader takes just the bytes `bs` and returns `a`, whatever follows, and changes the notes
from `notes` to `notes'`. -/
def RecordReads {α : Type} (bs : Bytes) (r : ReadRecord α) (notes : KeyNotes) (a : α)
    (notes' : KeyNotes) : Prop :=
  ∀ (rest : Bytes) (n : Nat) (s : Intake), Input.Holds (bs ++ rest) n s.input →
    s.notes = notes →
      ∃ s', r s = .ok a s' ∧ Input.Holds rest (n + bs.length) s'.input ∧ s'.notes = notes'

namespace RecordReads

variable {α β : Type} {notes notes' : KeyNotes}

theorem pure (a : α) (notes : KeyNotes) : RecordReads [] (Pure.pure a) notes a notes :=
  fun _ _ s h hn => ⟨s, rfl, h, hn⟩

theorem input {bs : Bytes} {r : Read α} {a : α} (h : Reads bs r a) (notes : KeyNotes) :
    RecordReads bs (ReadRecord.fromInput r) notes a notes := by
  intro rest n s hs hn
  obtain ⟨i, hr, hi⟩ := h rest n s.input hs
  refine ⟨{ s with input := i }, ?_, hi, hn⟩
  simp only [ReadRecord.fromInput, hr]

theorem bind {bs cs : Bytes} {r : ReadRecord α} {f : α → ReadRecord β} {a : α} {b : β}
    {mid : KeyNotes} (hr : RecordReads bs r notes a mid)
    (hf : RecordReads cs (f a) mid b notes') : RecordReads (bs ++ cs) (r >>= f) notes b notes' := by
  intro rest n s hs hn
  rw [List.append_assoc] at hs
  obtain ⟨s₁, h₁, hs₁, hn₁⟩ := hr _ n s hs hn
  obtain ⟨s₂, h₂, hs₂, hn₂⟩ := hf _ _ s₁ hs₁ hn₁
  refine ⟨s₂, (bind_of_ok h₁).trans h₂, ?_, hn₂⟩
  rwa [List.length_append, ← Nat.add_assoc]

/-- The second reader takes no byte. -/
theorem bindLeft {bs : Bytes} {r : ReadRecord α} {f : α → ReadRecord β} {a : α} {b : β}
    {mid : KeyNotes} (hr : RecordReads bs r notes a mid)
    (hf : RecordReads [] (f a) mid b notes') : RecordReads bs (r >>= f) notes b notes' := by
  have h := hr.bind hf
  rwa [List.append_nil] at h

/-- The notes decide how to go on. -/
theorem consult {bs : Bytes} {f : KeyNotes → ReadRecord α} {a : α}
    (h : RecordReads bs (f notes) notes a notes') :
    RecordReads bs (fun s => f s.notes s) notes a notes' := by
  intro rest n s hs hn
  obtain ⟨s', hr, hs', hn'⟩ := h rest n s hs hn
  refine ⟨s', ?_, hs', hn'⟩
  change f s.notes s = _
  rw [hn, hr]

theorem amend (f : KeyNotes → KeyNotes) (notes : KeyNotes) :
    RecordReads [] (modify fun s => { s with notes := f s.notes } : ReadRecord Unit) notes ()
      (f notes) :=
  fun _ _ _ hs hn => ⟨_, rfl, hs, congrArg f hn⟩

end RecordReads

open ReadRecord

variable {p : Profile} {version : Nat} {notes notes' : KeyNotes}

theorem reads_gate {part : VersionedPart} (h : p.refuses part version = false)
    (notes : KeyNotes) : RecordReads [] (gate p version part) notes () notes := by
  unfold gate
  rw [h]
  exact .pure () notes

/-- A record that starts with an opcode which the snapshot may hold. -/
theorem reads_record_opcode {op : Opcode} {bs : Bytes} {a : Option (Entry Packed)}
    (hv : p.refuses (.opcode op) version = false)
    (h : RecordReads bs (opcodeBody p version op) notes a notes') :
    RecordReads (op.code :: bs) (record p version) notes a notes' := by
  refine (RecordReads.input (Reads.byte op.code) notes).bind ?_
  rw [Opcode.ofByte?_code]
  exact (reads_gate hv notes).bind h

theorem ofByte?_kind_code (kind : ValueKind) : Opcode.ofByte? kind.code = none := by
  cases kind <;> decide

/-- A record that starts with the byte of a kind of value which the snapshot may hold. -/
theorem reads_record_key {kind : ValueKind} {bs : Bytes} {e : Entry Packed}
    (hv : p.refuses (.value kind) version = false)
    (h : RecordReads bs (keyValue p version kind) notes e notes') :
    RecordReads (kind.code :: bs) (record p version) notes (some e) notes' := by
  refine (RecordReads.input (Reads.byte kind.code) notes).bind ?_
  rw [ofByte?_kind_code]
  refine RecordReads.bindLeft ?_ (.pure _ notes')
  unfold keyRecord
  rw [ValueCode.ofByte?_known]
  exact (reads_gate hv notes).bind h

theorem reads_note {α : Type} {r : Read α} {a : α} {bs : Bytes} (h : Reads bs r a)
    (f : α → KeyNotes → KeyNotes) (notes : KeyNotes) :
    RecordReads bs (note r f) notes none (f a notes) :=
  (RecordReads.input h notes).bindLeft ((RecordReads.amend (f a) notes).bindLeft (.pure _ _))

/-- Every form of a mark is read as a note for the next key. -/
theorem Wire.MarkForm.reads {m : Mark} {bs : Bytes} (h : Wire.MarkForm p version m bs)
    (notes : KeyNotes) : RecordReads bs (record p version) notes none (m.note notes) := by
  obtain ⟨hv, hb⟩ := h
  refine reads_record_opcode hv ?_
  cases hb with
  | @expireSeconds n hn =>
    have hr : Reads (Bytes.leBytes 4 n) (Read.littleEndian 4) n := reads_littleEndian hn
    exact reads_note hr (fun n s => { s with expireTimeMs? := some (n * 1000) }) notes
  | @expireMs n hn =>
    have hr : Reads (Bytes.leBytes 8 n) (Read.littleEndian 8) n := reads_littleEndian hn
    exact reads_note hr (fun n s => { s with expireTimeMs? := some n }) notes
  | frequency b => exact reads_note (.byte b) (fun b s => { s with freq? := some b }) notes
  | idle hl => exact reads_note hl.reads (fun n s => { s with idleSeconds? := some n }) notes

/-! ### Readers of entries -/

theorem reads_entry_of_some {bs : Bytes} {e : Entry Packed}
    (h : RecordReads bs (record p version) notes (some e) notes') :
    RecordReads bs (entry p version) notes e notes' := by
  intro rest n s hs hn
  obtain ⟨s', hr, h'⟩ := h rest n s hs hn
  exact ⟨s', entry_of_some hr, h'⟩

theorem reads_entry_of_none {bs cs : Bytes} {e : Entry Packed} {mid : KeyNotes}
    (h : RecordReads bs (record p version) notes none mid)
    (he : RecordReads cs (entry p version) mid e notes') :
    RecordReads (bs ++ cs) (entry p version) notes e notes' := by
  intro rest n s hs hn
  rw [List.append_assoc] at hs
  obtain ⟨s₁, h₁, hs₁, hn₁⟩ := h _ n s hs hn
  obtain ⟨s₂, h₂, hs₂, hn₂⟩ := he _ _ s₁ hs₁ hn₁
  refine ⟨s₂, (entry_of_none h₁).trans h₂, ?_, hn₂⟩
  rwa [List.length_append, ← Nat.add_assoc]

/-- Marks are read one after the other before what they belong to. -/
theorem reads_entry_marks {marks : List Mark} {ms cs : Bytes} {e : Entry Packed}
    (hm : Wire.Sequence (Wire.MarkForm p version) marks ms)
    (he : RecordReads cs (entry p version) (Mark.noteAll marks notes) e notes') :
    RecordReads (ms ++ cs) (entry p version) notes e notes' := by
  induction hm generalizing notes with
  | nil => exact he
  | cons hform _ ih =>
    rw [List.append_assoc]
    exact reads_entry_of_none (hform.reads notes) (ih he)

theorem reads_keyValue {content : Content} {name bs cs : Bytes}
    (hname : Wire.Text p.textLimit name bs) (hc : Wire.Value p content cs) (notes : KeyNotes) :
    RecordReads (bs ++ cs) (keyValue p version content.kind) notes
      (.keyValue (notes.fields name content.kind) (content.values (p.cutoffFor version))) {} := by
  let put (notes : KeyNotes) : ReadRecord (Entry Packed) := do
    modify fun s => { s with notes := {} }
    return .keyValue (notes.fields name content.kind) (content.values (p.cutoffFor version))
  have hput : RecordReads [] (put notes) notes
      (.keyValue (notes.fields name content.kind) (content.values (p.cutoffFor version))) {} :=
    (RecordReads.amend (fun _ => {}) notes).bindLeft (.pure _ _)
  exact (RecordReads.input hname.reads notes).bind
    ((RecordReads.input hc.reads notes).bindLeft (RecordReads.consult (f := put) hput))

theorem reads_standalone {op : Opcode} {r : Read (Entry Packed)} {bs : Bytes} {e : Entry Packed}
    (h : Reads bs r e) : RecordReads bs (standalone op r) {} (some e) {} := by
  let go (notes : KeyNotes) : ReadRecord (Option (Entry Packed)) :=
    if notes.isEmpty then do return some (← fromInput r)
    else throw (ReadError.format (.strayMetadata op))
  have hgo : RecordReads bs (go {}) {} (some e) {} :=
    (RecordReads.input h {}).bindLeft (.pure _ _)
  exact RecordReads.consult (f := go) hgo

/-- Every form of a record is read as its entry. -/
theorem Wire.RecordForm.reads {r : Record} {bs : Bytes} (h : Wire.RecordForm p version r bs) :
    RecordReads bs (entry p version) {} (r.entry p version) {} := by
  cases h with
  | @aux name value bs cs hv hk hval =>
    have hr : Reads (bs ++ cs) (ReadRecord.aux p) (.aux name value) :=
      hk.reads.bind (hval.reads.map _)
    exact reads_entry_of_some (reads_record_opcode hv (reads_standalone hr))
  | @selectDb id bs hv hl =>
    have hr : Reads bs ReadRecord.selectDb (.selectDb id) := hl.reads.map _
    exact reads_entry_of_some (reads_record_opcode hv (reads_standalone hr))
  | @resizeDb size expireSize bs cs hv hs he =>
    have hr : Reads (bs ++ cs) ReadRecord.resizeDb (.resizeDb size expireSize) :=
      hs.reads.bind (he.reads.map _)
    exact reads_entry_of_some (reads_record_opcode hv (reads_standalone hr))
  | @key marks name content ms bs cs hm hv hname hc =>
    refine reads_entry_marks hm (reads_entry_of_some (reads_record_key hv ?_))
    rw [Record.entry, ← Mark.fields_noteAll]
    exact reads_keyValue hname hc _

end RedisDump
