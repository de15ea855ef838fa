import RedisDump.Proofs.Decimal
import RedisDump.Proofs.Wire.Record

/-!
# Snapshots on the wire

A snapshot is its header, its records in any of their forms, and its end, which holds a checksum
from version 5 on. Whatever follows it, a snapshot is drained to the entries of its records and
its end, and not a byte more is taken (`drain_snapshot`).
-/

namespace RedisDump

namespace Wire

/-- A decimal digit. -/
def digit (n : Nat) : UInt8 :=
  UInt8.ofNat (0x30 + n % 10)

/-- The field of a version: its four decimal digits. -/
def versionField (version : Nat) : Bytes :=
  [digit (version / 1000), digit (version / 100), digit (version / 10), digit version]

/-- The forms of a checksum: it is stored from version 5 on, and all zeros before. -/
inductive Checksum (version : Nat) : Bytes → Bytes → Prop where
  | stored {bs : Bytes} : ReadRecord.checksumVersion ≤ version → bs.length = checksumWidth →
    Checksum version bs bs
  | absent : version < ReadRecord.checksumVersion →
    Checksum version (List.replicate checksumWidth 0) []

/-- The forms of a snapshot. -/
inductive Snapshot (p : Profile) (version : Nat) (records : List Record) (checksum : Bytes) :
    Bytes → Prop where
  | intro {body stored : Bytes} : Sequence (RecordForm p version) records body →
    Checksum version checksum stored →
      Snapshot p version records checksum
        (Read.fixedLetters ++ (versionField version ++ (body ++ Opcode.eof.code :: stored)))

/-! ### The header -/

theorem toNat_digit (n : Nat) : (digit n).toNat = 0x30 + n % 10 :=
  Bytes.toNat_ofNat_digit (Nat.mod_lt n (by decide))

theorem isDigit_digit (n : Nat) : Bytes.isDigit (digit n) = true :=
  Bytes.isDigit_ofNat (Nat.mod_lt n (by decide))

theorem digitsValue_versionField {version : Nat} (h : version < 10000) :
    (versionField version).digitsValue = version := by
  simp only [versionField, Bytes.digitsValue, List.foldl_cons, List.foldl_nil, toNat_digit]
  omega

theorem reads_signature : Reads Read.fixedLetters Read.signature () := by
  refine (Reads.bytes Read.fixedLetters).bindLeft ?_
  rw [if_pos rfl]
  exact .pure ()

theorem reads_versionField {version : Nat} (h : version < 10000) :
    Reads (versionField version) Read.versionField version := by
  have hr : Reads (versionField version) (Read.bytes Read.versionWidth) (versionField version) :=
    Reads.bytes _
  have hall : (versionField version).all Bytes.isDigit = true := by
    simp only [versionField, List.all_cons, List.all_nil, isDigit_digit, Bool.and_self]
  refine hr.bindLeft ?_
  rw [if_pos hall, digitsValue_versionField h]
  exact .pure version

theorem reads_header {p : Profile} {version : Nat} (hmin : p.minVersion ≤ version)
    (hmax : version ≤ p.maxVersion) :
    Reads (Read.fixedLetters ++ versionField version) (Read.header p) version := by
  have hlt : version < 10000 := Nat.lt_of_le_of_lt (Nat.le_trans hmax p.max_le_newest) (by decide)
  refine reads_signature.bind ((reads_versionField hlt).bindLeft ?_)
  rw [if_pos ⟨hmin, hmax⟩]
  exact .pure version

/-! ### The end -/

theorem Checksum.reads {version : Nat} {checksum bs : Bytes} (h : Checksum version checksum bs) :
    Reads bs (ReadRecord.eof version) (.eof checksum) := by
  unfold ReadRecord.eof
  cases h with
  | stored hv hlen =>
    have hr := (Reads.bytes checksum).map fun c => (Entry.eof c : Entry Packed)
    rw [if_pos hv]
    rwa [hlen] at hr
  | absent hv =>
    rw [if_neg (by omega)]
    exact .pure _

/-- The end of a snapshot is never newer than the snapshot. -/
theorem refuses_eof (p : Profile) {version : Nat} (h : p.minVersion ≤ version) :
    p.refuses (.opcode .eof) version = false := by
  have hv : ¬ version < 1 := Nat.not_lt.mpr (Nat.le_trans p.oldest_le_min h)
  simp [Profile.refuses, VersionedPart.since, Opcode.since, hv]

theorem reads_end {p : Profile} {version : Nat} {checksum bs : Bytes}
    (hmin : p.minVersion ≤ version) (h : Checksum version checksum bs) :
    RecordReads (Opcode.eof.code :: bs) (ReadRecord.entry p version) {} (.eof checksum) {} :=
  reads_entry_of_some (reads_record_opcode (refuses_eof p hmin) (reads_standalone h.reads))

end Wire

/-! ### Draining -/

namespace Session

variable {p : Profile} {version n : Nat} {s : Session}

/-- A session that stands between two records, before the bytes `bs`. -/
structure Before (p : Profile) (version : Nat) (bs : Bytes) (n : Nat) (s : Session) : Prop where
  profile : s.profile = p
  phase : s.phase = .ready version
  holds : Input.Holds bs n s.intake.input
  notes : s.intake.notes = {}

/-- What is read as an entry is returned and delivered. -/
theorem next_of_reads {bs rest : Bytes} {e : Entry Packed}
    (hr : RecordReads bs (ReadRecord.entry p version) {} e {})
    (hs : Before p version (bs ++ rest) n s) :
    ∃ intake, s.next =
        (.ok (some e), (({ s with intake := intake } : Session).advance version e).deliver e) ∧
      Input.Holds rest (n + bs.length) intake.input ∧ intake.notes = {} := by
  obtain ⟨hp, hphase, hi, hn⟩ := hs
  obtain ⟨intake, he, hi', hn'⟩ := hr rest n s.intake hi hn
  refine ⟨intake, (next_of_ready hphase).trans (readEntry_of_ok ?_), hi', hn'⟩
  rwa [hp]

/-- A record is drained to its entry. -/
theorem drain_record {r : Record} {bs rest : Bytes} (hr : Wire.RecordForm p version r bs)
    (hs : Before p version (bs ++ rest) n s) :
    ∃ s', s.drain none = s'.drain none ∧ Before p version rest (n + bs.length) s' ∧
      s'.entries.toList = s.entries.toList ++ [r.entry p version] := by
  obtain ⟨intake, hnext, hi, hn⟩ := next_of_reads hr.reads hs
  refine ⟨_, drain_of_some nofun hnext, ?_, ?_⟩
  · cases r <;> exact ⟨hs.profile, hs.phase, hi, hn⟩
  · simp

/-- Records are drained to their entries. -/
theorem drain_records {records : List Record} {body rest : Bytes}
    (hr : Wire.Sequence (Wire.RecordForm p version) records body)
    (hs : Before p version (body ++ rest) n s) :
    ∃ s', s.drain none = s'.drain none ∧ Before p version rest (n + body.length) s' ∧
      s'.entries.toList = s.entries.toList ++ records.map (Record.entry p version) := by
  induction hr generalizing n s with
  | nil => exact ⟨s, rfl, hs, by simp⟩
  | cons hform _ ih =>
    rw [List.append_assoc] at hs
    obtain ⟨s₁, hd₁, hs₁, he₁⟩ := drain_record hform hs
    obtain ⟨s₂, hd₂, hs₂, he₂⟩ := ih hs₁
    refine ⟨s₂, hd₁.trans hd₂, ?_, ?_⟩
    · rwa [List.length_append, ← Nat.add_assoc]
    · rw [he₂, he₁, List.append_assoc, List.map_cons, List.singleton_append]

/-- The end of a snapshot is drained to its entry, and is the last that is read. -/
theorem drain_end {checksum stored rest : Bytes} (hmin : p.minVersion ≤ version)
    (hc : Wire.Checksum version checksum stored)
    (hs : Before p version (Opcode.eof.code :: stored ++ rest) n s) :
    ∃ s', s.drain none = (.finished, s') ∧ s'.phase = .exhausted version ∧
      s'.bytesRead = n + (Opcode.eof.code :: stored).length ∧
      s'.entries.toList = s.entries.toList ++ [.eof checksum] := by
  obtain ⟨intake, hnext, hi, -⟩ := next_of_reads (Wire.reads_end hmin hc) hs
  have hl : (none : Option Nat) ≠ some 0 := nofun
  have hd := (drain_of_some hl hnext).trans (drain_of_none hl (next_of_exhausted rfl))
  exact ⟨_, hd, rfl, hi.consumed, by simp⟩

/-- A session over a source that delivers a snapshot accepts its header. -/
theorem openSnapshot_header {rest : Bytes} {source : Source} (hmin : p.minVersion ≤ version)
    (hmax : version ≤ p.maxVersion)
    (hsource : source.Delivers (Read.fixedLetters ++ Wire.versionField version ++ rest)
      p.bufferSize) :
    ∃ s, (start p source).openSnapshot = (.ok version, s) ∧
      Before p version rest (Read.fixedLetters ++ Wire.versionField version).length s ∧
      s.entries = #[] := by
  have hr := RecordReads.input (Wire.reads_header hmin hmax) {}
  obtain ⟨intake, hh, hi, hn⟩ := hr rest 0 (start p source).intake
    (hsource.holds p.bufferSize_pos) rfl
  rw [Nat.zero_add] at hi
  exact ⟨_, openSnapshot_of_ok hh, ⟨rfl, rfl, hi, hn⟩, rfl⟩

/-- A fresh session whose header is accepted reads what the session after it reads. -/
theorem next_of_openSnapshot {source : Source}
    (h : (start p source).openSnapshot = (.ok version, s)) : (start p source).next = s.next :=
  (next_of_fresh rfl h).trans (next_of_ready (phase_of_openSnapshot h)).symm

/-- A session over a source that delivers a snapshot is drained from behind its header on. -/
theorem drain_header {rest : Bytes} {source : Source} (hmin : p.minVersion ≤ version)
    (hmax : version ≤ p.maxVersion)
    (hsource : source.Delivers (Read.fixedLetters ++ Wire.versionField version ++ rest)
      p.bufferSize) :
    ∃ s, (start p source).drain none = s.drain none ∧
      Before p version rest (Read.fixedLetters ++ Wire.versionField version).length s ∧
      s.entries = #[] := by
  obtain ⟨s, hopen, hs, he⟩ := openSnapshot_header hmin hmax hsource
  exact ⟨s, drain_congr nofun (next_of_openSnapshot hopen), hs, he⟩

/-- **A snapshot is drained to the entries of its records and its end**, whatever the forms of its
parts, whatever the portions in which it comes, and whatever follows it. -/
theorem drain_snapshot {records : List Record} {checksum bs : Bytes} {source : Source}
    (hmin : p.minVersion ≤ version) (hmax : version ≤ p.maxVersion)
    (h : Wire.Snapshot p version records checksum bs) (trailing : Bytes)
    (hsource : source.Delivers (bs ++ trailing) p.bufferSize) :
    ∃ s, (start p source).drain none = (.finished, s) ∧
      s.entries.toList = records.map (Record.entry p version) ++ [.eof checksum] ∧
      s.phase = .exhausted version ∧ s.bytesRead = bs.length := by
  obtain @⟨body, stored, hrecords, hchecksum⟩ := h
  have hsource' : source.Delivers (Read.fixedLetters ++ Wire.versionField version ++
      (body ++ (Opcode.eof.code :: stored ++ trailing))) p.bufferSize := by
    simpa only [List.append_assoc] using hsource
  obtain ⟨s₁, hd₁, hs₁, he₁⟩ := drain_header hmin hmax hsource'
  obtain ⟨s₂, hd₂, hs₂, he₂⟩ := drain_records hrecords hs₁
  obtain ⟨s₃, hd₃, hphase, hread, he₃⟩ := drain_end hmin hchecksum hs₂
  refine ⟨s₃, hd₁.trans (hd₂.trans hd₃), ?_, hphase, ?_⟩
  · rw [he₃, he₂, he₁, List.toList_toArray, List.nil_append]
  · rw [hread]
    simp only [List.length_append, List.length_cons]
    omega

/-- A selection of database 3, and in it a list with a frequency. -/
def sampleRecords : List Record :=
  [.selectDb 3, .key [.frequency 7] [0x6B] (.list [[0x61], Bytes.decimal 5])]

/-- The records with the second element of the list as an integer. -/
def sampleBody : Bytes :=
  [0xFE, 3] ++ ([0xF9, 7, 1, 1, 0x6B, 2, 1, 0x61, 0xC0, 5] ++ [])

theorem sampleBody_form :
    Wire.Sequence (Wire.RecordForm .standard 11) sampleRecords sampleBody := by
  have hselect : Wire.RecordForm .standard 11 (.selectDb 3) [0xFE, 3] :=
    .selectDb rfl (.six (by decide))
  have hmark : Wire.MarkForm .standard 11 (.frequency 7) [0xF9, 7] := .intro rfl (.frequency 7)
  have hname : Wire.Text Profile.standard.textLimit [0x6B] [1, 0x6B] :=
    .raw (by decide) (.six (by decide))
  have hfirst : Wire.Text Profile.standard.textLimit [0x61] [1, 0x61] :=
    .raw (by decide) (.six (by decide))
  have hsecond : Wire.Text Profile.standard.textLimit (Bytes.decimal 5) [0xC0, 5] :=
    .compact .int8 (by decide)
  have hlist : Wire.Value .standard (.list [[0x61], Bytes.decimal 5])
      ([2] ++ ([1, 0x61] ++ ([0xC0, 5] ++ []))) :=
    .intro (by decide) (.six (by decide)) (.cons hfirst (.cons hsecond .nil))
  exact .cons hselect (.cons (.key (.cons hmark .nil) rfl hname hlist) .nil)

/-- The two records and their end, with a byte behind them. -/
theorem drain_snapshot_sample :
    ∃ s, (start .standard (.ofBytes (Read.fixedLetters ++ (Wire.versionField 11 ++
        (sampleBody ++ Opcode.eof.code :: List.replicate checksumWidth 0)) ++ [7]))).drain none =
        (.finished, s) ∧
      s.entries.toList =
        [.selectDb 3,
          .keyValue { key := [0x6B], kind := .list, freq? := some 7 }
            (.ofElements [[0x61], [0x35]]),
          .eof (List.replicate checksumWidth 0)] ∧
      s.phase = .exhausted 11 ∧ s.bytesRead = 30 :=
  drain_snapshot (by decide) (by decide)
    (.intro sampleBody_form (.stored (by decide) rfl)) [7] (.contents (by decide))

/-- The standard profile for strings of at most one byte. -/
def narrowProfile : Profile :=
  { Profile.standard with textLimit := 1 }

/-- A snapshot of version 11 with a field whose name, of one byte, is compressed to two. -/
def packedNameSnapshot : Bytes :=
  [0x52, 0x45, 0x44, 0x49, 0x53, 0x30, 0x30, 0x31, 0x31, 0xFA, 0xC3, 2, 1, 0, 0x61, 0, 0xFF, 0, 0,
    0, 0, 0, 0, 0, 0]

/-- The place after the first `n` bytes of the snapshot with a compressed name. -/
def packedNameFrom (n : Nat) : Intake :=
  { input :=
      { source := .ofBytes [], bufferSize := 8192
        unread := packedNameSnapshot.drop n, consumed := n } }

theorem drain_packedNameSnapshot : ∃ s,
    (start narrowProfile (.ofBytes packedNameSnapshot)).drain none =
      (.failed (.reading (.tooLarge (.tooLongText 1 2))), s) := by
  have hh : ReadRecord.fromInput (Read.header narrowProfile)
      (start narrowProfile (.ofBytes packedNameSnapshot)).intake = .ok 11 (packedNameFrom 9) := rfl
  have hr : ReadRecord.record narrowProfile 11 (packedNameFrom 9) =
      .error (.tooLarge (.tooLongText 1 2)) (packedNameFrom 13) := rfl
  have hn := next_of_header_error (s := start narrowProfile (.ofBytes packedNameSnapshot)) rfl hh hr
  exact ⟨_, drain_of_error nofun hn⟩

/-- Out of memory that is asked for more bytes than a machine word can count no snapshot is
drained; and a payload longer than a string may be is refused, even if its string is not. -/
theorem snapshot_not_drained :
    (¬ ∀ (p : Profile) (version : Nat) (records : List Record) (checksum bs trailing : Bytes),
      p.minVersion ≤ version → version ≤ p.maxVersion →
        Wire.Snapshot p version records checksum bs →
          ∃ s, (start p (.ofBytes (bs ++ trailing))).drain none = (.finished, s)) ∧
      Lzf.decompressTo 1 [0, 0x61] = .ok [0x61] ∧
      ∃ s, (start narrowProfile (.ofBytes packedNameSnapshot)).drain none =
        (.failed (.reading (.tooLarge (.tooLongText 1 2))), s) := by
  refine ⟨fun h => ?_, ?_, drain_packedNameSnapshot⟩
  · let p := Profile.standard.withBufferSize Profile.tooWideSize (by decide)
    have hform : Wire.Snapshot p 11 [] (List.replicate checksumWidth 0) _ :=
      .intro .nil (.stored (by decide) rfl)
    obtain ⟨s, hd⟩ := h p 11 [] _ _ [] (by decide) (by decide) hform
    rw [drain_start_of_not_fits (p := p) (by decide)] at hd
    cases hd
  · change Lzf.decompressTo (1 : Nat) [0, 0x61] = .ok [0x61]
    have hd : Lzf.decompress [0, 0x61] 1 = .ok [0x61] := by cbv
    rw [Lzf.decompressTo_of_holds (by decide), hd]
    rfl

end Session

end RedisDump
