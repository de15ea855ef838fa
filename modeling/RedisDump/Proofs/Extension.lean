import RedisDump.Proofs.Delivery
import RedisDump.Proofs.Twins

/-!
# More bytes behind a snapshot

A snapshot is drained twice from memory, the second time with more bytes behind it. Reading never
looks ahead, so the two drains are the same unless the first one ends for want of bytes; then it
has used all of its bytes, and what it has delivered the second one delivers too. A drain that
has come to the end of a snapshot has therefore used no byte too many, and every shorter cut is
noticed (`drained_append`).
-/

namespace RedisDump

/-! ### The comparison -/

/-- Whether a read fails because the source ended. -/
def ReadError.isTruncation : ReadError → Bool
  | .truncated .. => true
  | _ => false

/-- Two inputs over `total` bytes, the second with `more` behind them: the first one may be cut
short at its end. -/
def extension (total : Nat) (more : Bytes) : Comparison Input where
  near i j := ∃ bs n, Input.Holds bs n i ∧ Input.Holds (bs ++ more) n j ∧ n + bs.length = total
  shared e := e.isTruncation = false
  cut e i := (∃ needed, e = .truncated total needed) ∧ Input.Holds [] total i

theorem ReadError.isTruncation_of_isVerdict {e : ReadError} (h : e.isVerdict = true) :
    e.isTruncation = false := by
  cases e <;> first | rfl | cases h

theorem extension_sound (total : Nat) (more : Bytes) : (extension total more).Sound := by
  refine Comparison.sound_of_holds ?_ ?_ fun _ => ReadError.isTruncation_of_isVerdict
  · rintro i j ⟨bs, n, hi, hj, -⟩
    exact ⟨bs, bs ++ more, n, hi, hj⟩
  · rintro needed i j ⟨bs, n, hi, hj, hlen⟩
    cases bs with
    | nil =>
      obtain ⟨i', hr, hi'⟩ := Read.next_of_holds_nil hi needed
      obtain rfl : n = total := hlen
      rw [hr]
      exact .cut ⟨⟨needed, rfl⟩, hi'⟩
    | cons b bs =>
      obtain ⟨i', hri, hi'⟩ := Read.next_of_holds_cons hi needed
      obtain ⟨j', hrj, hj'⟩ := Read.next_of_holds_cons hj needed
      rw [hri, hrj]
      refine .ok ⟨bs, n + 1, hi', hj', ?_⟩
      rw [← hlen, List.length_cons]
      omega

/-! ### Drains from memory -/

namespace Session

/-- The drain of bytes that lie in memory. -/
def drained (p : Profile) (data : Bytes) : Ending × Session :=
  (Session.start p (.ofBytes data)).drain none

/-- An ending for want of bytes. -/
def Ending.IsTruncation (ending : Ending) : Prop :=
  ∃ consumed needed, ending = .failed (.reading (.truncated consumed needed))

theorem Ending.not_isTruncation {ending : Ending}
    (h : ∀ e, ending = .failed (.reading e) → e.isTruncation = false) :
    ¬ ending.IsTruncation := by
  rintro ⟨consumed, needed, rfl⟩
  cases h _ rfl

/-- Fresh sessions over bytes in memory, the second time with more bytes behind them. -/
theorem twins_append {p : Profile} (hfits : MachineWord.Fits p.bufferSize) (data more : Bytes) :
    Twins (extension data.length more) (start p (.ofBytes data))
      (start p (.ofBytes (data ++ more))) := by
  have hd (bs : Bytes) : (Source.ofBytes bs).Delivers bs p.bufferSize := .contents hfits
  have hi := (hd data).holds p.bufferSize_pos
  have hj := (hd (data ++ more)).holds p.bufferSize_pos
  exact twins_start (extension_sound _ _) (.refl p) ⟨data, 0, hi, hj, Nat.zero_add _⟩

/-- Bytes in memory and the same bytes with more behind them are drained side by side. -/
theorem drained_beside {p : Profile} (hfits : MachineWord.Fits p.bufferSize) (data more : Bytes) :
    DrainedBeside (extension data.length more) (drained p data) (drained p (data ++ more)) :=
  drain_beside (extension_sound _ _) (twins_append hfits data more) none

/-- Two drains with the same ending, entries, phase and number of bytes read. -/
structure SameDrain (d d' : Ending × Session) : Prop where
  ending : d'.1 = d.1
  entries : d'.2.entries = d.2.entries
  phase : d'.2.phase = d.2.phase
  bytesRead : d'.2.bytesRead = d.2.bytesRead

/-- The two ways in which draining with more bytes compares to draining without them. -/
theorem drained_append_cases (p : Profile) (data more : Bytes) :
    (¬ (drained p data).1.IsTruncation ∧ SameDrain (drained p data) (drained p (data ++ more)) ∧
        (drained p data).2.bytesRead ≤ data.length) ∨
      (∃ needed, (drained p data).1 = .failed (.reading (.truncated data.length needed))) ∧
        (drained p data).2.bytesRead = data.length ∧
        (drained p data).2.entries.toList <+: (drained p (data ++ more)).2.entries.toList := by
  by_cases hfits : MachineWord.Fits p.bufferSize
  · have hb := drained_beside hfits data more
    have ho : (drained p data).2.phase.isClosed = false := isClosed_drain none rfl
    generalize drained p data = d, drained p (data ++ more) = d' at hb ho
    cases hb with
    | same h he =>
      obtain ⟨⟨bs, n, hi, -, hlen⟩, -⟩ := h.intake ho
      have hn := hi.consumed
      refine .inl ⟨Ending.not_isTruncation he,
        ⟨rfl, h.entries.symm, h.phase.symm, h.bytesRead.symm⟩, ?_⟩
      simp only [bytesRead]
      omega
    | cut hcut hp =>
      obtain ⟨⟨needed, rfl⟩, hi⟩ := hcut
      exact .inr ⟨⟨needed, rfl⟩, hi.consumed, hp⟩
  · unfold drained
    rw [drain_start_of_not_fits hfits, drain_start_of_not_fits hfits]
    refine .inl ⟨?_, ⟨rfl, rfl, rfl, rfl⟩, Nat.zero_le _⟩
    rintro ⟨consumed, needed, h⟩
    cases h

/-- **More bytes behind a snapshot change nothing, and every cut is noticed.** Draining `data`
and draining it with `more` behind are the same unless the first drain is cut short. If it is, it
has read all of `data`, and its entries are the first ones of the longer drain. In particular a
snapshot that is cut before its last byte gives some of its entries and then ends for want of
bytes, at the cut. -/
theorem drained_append (p : Profile) (data more : Bytes) :
    (¬ (drained p data).1.IsTruncation →
        SameDrain (drained p data) (drained p (data ++ more))) ∧
      ((drained p data).1.IsTruncation → (drained p data).2.bytesRead = data.length ∧
        (drained p data).2.entries.toList <+: (drained p (data ++ more)).2.entries.toList) ∧
      ∀ cut, (drained p data).1 = .finished → cut < (drained p data).2.bytesRead →
        (∃ needed, (drained p (data.take cut)).1 = .failed (.reading (.truncated cut needed))) ∧
          (drained p (data.take cut)).2.bytesRead = cut ∧
          (drained p (data.take cut)).2.entries.toList <+: (drained p data).2.entries.toList := by
  refine ⟨fun ht => ?_, fun ht => ?_, fun cut hf hcut => ?_⟩
  · rcases drained_append_cases p data more with ⟨-, hsame, -⟩ | ⟨⟨needed, hd⟩, -⟩
    · exact hsame
    · exact absurd ⟨_, _, hd⟩ ht
  · rcases drained_append_cases p data more with ⟨hd, -⟩ | ⟨-, h⟩
    · exact absurd ht hd
    · exact h
  · have hle : (drained p data).2.bytesRead ≤ data.length := by
      rcases drained_append_cases p data [] with ⟨-, -, h⟩ | ⟨⟨needed, hd⟩, -⟩
      · exact h
      · rw [hf] at hd
        cases hd
    have hlen : (data.take cut).length = cut := List.length_take_of_le (by omega)
    have hcases := drained_append_cases p (data.take cut) (data.drop cut)
    rw [List.take_append_drop, hlen] at hcases
    rcases hcases with ⟨-, hsame, hread⟩ | h
    · have := hsame.bytesRead
      omega
    · exact h

/-- A snapshot of version 11 with a single key. -/
def keySnapshot : Bytes :=
  [0x52, 0x45, 0x44, 0x49, 0x53, 0x30, 0x30, 0x31, 0x31, 0x00, 0x01, 0x6B, 0x01, 0x76,
    0xFF, 0, 0, 0, 0, 0, 0, 0, 0]

/-- Its key. -/
def keyOfSnapshot : Entry Packed :=
  .keyValue { key := [0x6B], kind := .string } (.ofElements [[0x76]])

/-- The session behind the first `n` bytes of a snapshot of version 11. -/
def afterHeader (data : Bytes) (n : Nat) : Session :=
  ({ start .standard (.ofBytes data) with intake := .behind .standard data n } : Session).accept 11

/-- The session that has read the key from the beginning of a snapshot. -/
def afterKey (data : Bytes) : Session :=
  (afterHeader data 14).deliver keyOfSnapshot

theorem next_start_of_key (data : Bytes)
    (hheader : ReadRecord.fromInput (Read.header .standard)
      (start .standard (.ofBytes data)).intake = .ok 11 (.behind .standard data 9))
    (hkey : ReadRecord.record .standard 11 (.behind .standard data 9) =
      .ok (some keyOfSnapshot) (.behind .standard data 14)) :
    (start .standard (.ofBytes data)).next = (.ok (some keyOfSnapshot), afterKey data) := by
  have hnext := next_of_header_record (s := start .standard (.ofBytes data)) rfl hheader hkey
  exact hnext

theorem drained_keySnapshot : (drained .standard keySnapshot).1 = .finished ∧
    (drained .standard keySnapshot).2.bytesRead = 23 ∧
    (drained .standard keySnapshot).2.entries =
      #[keyOfSnapshot, .eof (List.replicate checksumWidth 0)] := by
  have hl : (none : Option Nat) ≠ some 0 := nofun
  have hkey := next_start_of_key keySnapshot rfl rfl
  have hend : ReadRecord.record .standard 11 (.behind .standard keySnapshot 14) =
      .ok (some (.eof (List.replicate checksumWidth 0))) (.behind .standard keySnapshot 23) := rfl
  have heof := (next_of_ready (s := afterKey keySnapshot) rfl).trans
    (readEntry_of_ok (ReadRecord.entry_of_some hend))
  have hd := (drain_of_some hl hkey).trans ((drain_of_some hl heof).trans
    (drain_of_none hl (next_of_exhausted rfl)))
  unfold drained
  rw [hd]
  exact ⟨rfl, rfl, rfl⟩

/-- The snapshot of a single key, with a byte behind it; and cut inside its checksum, which leaves
the key. -/
theorem drained_append_keySnapshot :
    SameDrain (drained .standard keySnapshot) (drained .standard (keySnapshot ++ [7])) ∧
      (drained .standard keySnapshot).2.entries =
        #[keyOfSnapshot, .eof (List.replicate checksumWidth 0)] ∧
      (∃ needed, (drained .standard (keySnapshot.take 16)).1 =
        .failed (.reading (.truncated 16 needed))) ∧
      (drained .standard (keySnapshot.take 16)).2.entries.toList <+:
        (drained .standard keySnapshot).2.entries.toList ∧
      (drained .standard (keySnapshot.take 16)).2.entries = #[keyOfSnapshot] := by
  obtain ⟨hf, hn, hentries⟩ := drained_keySnapshot
  obtain ⟨hsame, -, hcut⟩ := drained_append .standard keySnapshot [7]
  obtain ⟨hending, -, hprefix⟩ := hcut 16 hf (by rw [hn]; decide)
  refine ⟨hsame ?_, hentries, hending, hprefix, ?_⟩
  · rintro ⟨consumed, needed, h⟩
    rw [hf] at h
    cases h
  · have hl : (none : Option Nat) ≠ some 0 := nofun
    have hkey := next_start_of_key (keySnapshot.take 16) rfl rfl
    have hend : ReadRecord.record .standard 11 (.behind .standard (keySnapshot.take 16) 14) =
        .error (.truncated 16 7) (.behind .standard (keySnapshot.take 16) 16) := rfl
    have hlast := (next_of_ready (s := afterKey (keySnapshot.take 16)) rfl).trans
      (readEntry_of_error (ReadRecord.entry_of_error hend))
    unfold drained
    rw [(drain_of_some hl hkey).trans (drain_of_error hl hlast)]
    rfl

end Session

end RedisDump
