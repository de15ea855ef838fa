import RedisDump.Proofs.Boundary
import RedisDump.Proofs.Later

/-!
# No hidden state between entries

All that a session over memory goes on from between two entries is its profile, the version of its
snapshot and the bytes that are still to come: two sessions that agree in these give the same
reports from then on, each from its own count of bytes (`same_later`). So a snapshot may be cut
between two entries: if draining a header and `A` takes all of `A` with its last entry and then runs
out of bytes, draining `A` and `B` behind the header gives the entries of `A` and then those that
`B` gives behind the header by itself.
-/

namespace RedisDump

/-- The bytes of the header of a snapshot. -/
def Wire.header (version : Nat) : Bytes :=
  Read.fixedLetters ++ versionField version

namespace Session

variable {p : Profile} {version : Nat} {data : Bytes} {s s' t u : Session}

/-! ### The version of a run -/

/-- Reading an entry keeps the version of the snapshot. -/
theorem version_readEntry (h : s.phase = .ready version) :
    (s.readEntry version).2.phase.version? = some version := by
  unfold readEntry
  split
  · rename_i e intake _
    exact (version_advance { s with intake := intake } h e).trans (congrArg Phase.version? h)
  · exact (version_fail _ _).trans (congrArg Phase.version? h)

/-- So does every read, once the header has been accepted. -/
theorem version_next (h : s.phase.version? = some version) :
    s.next.2.phase.version? = some version := by
  refine next_invariant (P := fun s => s.phase.version? = some version) ?_ ?_ h
  · intro s hp hs
    rw [hp] at hs
    cases hs
  · intro s v hp hs
    rw [hp] at hs
    cases hs
    exact version_readEntry hp

/-- A session whose read fails, after its header had been accepted, was ready. -/
theorem phase_of_next_reading {e : ReadError} (h : s.next = (.error (.reading e), s'))
    (hv : s.phase.version? = some version) : s.phase = .ready version := by
  cases hp : s.phase with
  | fresh =>
    rw [hp] at hv
    cases hv
  | ready v =>
    rw [hp] at hv
    cases hv
    rfl
  | exhausted v =>
    rw [next_of_exhausted hp] at h
    cases h
  | failed v =>
    rw [next_of_failed hp] at h
    cases h
  | closed v =>
    rw [next_of_closed hp] at h
    cases h

/-! ### Memory that does not answer -/

/-- A session over memory of which nothing has been read, or one that has been closed. -/
def Untouched (p : Profile) (data : Bytes) (s : Session) : Prop :=
  s.phase.isClosed = true ∨ s.profile = p ∧ s.phase = .fresh ∧
    s.intake = (start p (.ofBytes data)).intake

/-- Memory that does not answer requests of the buffer's size leaves a session as it is. -/
theorem next_of_untouched (hfits : ¬ MachineWord.Fits p.bufferSize) (h : Untouched p data s) :
    ∃ e, s.next = (.error e, s) := by
  rcases h with hp | ⟨-, hp, hi⟩
  · cases hs : s.phase with
    | closed => exact ⟨.closed, by simp only [next, hs]⟩
    | fresh | ready | exhausted | failed =>
      rw [hs] at hp
      cases hp
  · have hread : Read.next Read.fixedLetters.length (start p (.ofBytes data)).intake.input =
        .error (.source .tooWide) (start p (.ofBytes data)).intake.input :=
      Read.next_of_read_eq_error (i := (start p (.ofBytes data)).intake.input) rfl
        (Source.read_ofBytes hfits data) _
    rw [← hi] at hread
    exact ⟨_, next_of_next_eq_error hp rfl hread⟩

theorem untouched_step (hfits : ¬ MachineWord.Fits p.bufferSize) (h : Untouched p data s)
    (op : Step) : Untouched p data (s.step op).2 := by
  obtain ⟨e, hn⟩ := next_of_untouched hfits h
  cases op with
  | next =>
    simp only [step, hn]
    exact h
  | demand =>
    simp only [step, demand, hn]
    exact h
  | drain =>
    have hd : s.drain none = (.failed e, s) := drain_of_error (by simp) hn
    simp only [step, drainAll, hd]
    exact h
  | close =>
    change Untouched p data s.close
    unfold close
    split
    · exact h
    · exact .inl rfl
  | allValues | metrics | log | closeCalls | ask => exact h

/-- A session that stands between two entries has memory that answers. -/
theorem Between.fits (h : Between p (.ofBytes data) version s) :
    MachineWord.Fits p.bufferSize := by
  by_cases hfits : MachineWord.Fits p.bufferSize
  · exact hfits
  · cases h with
    | opened ho =>
      -- the first read would leave a session that knows its version
      have hv := version_readEntry (phase_of_openSnapshot ho)
      rw [← next_of_fresh rfl ho, next_start_of_not_fits hfits] at hv
      cases hv
    | @after ops _ hp =>
      have hrun : Untouched p data ((start p (.ofBytes data)).run ops) :=
        run_invariant (P := Untouched p data) (fun _ op hs => untouched_step hfits hs op)
          (.inr ⟨rfl, rfl, rfl⟩) ops
      rcases hrun with hc | ⟨-, hf, -⟩
      · rw [hp] at hc
        cases hc
      · rw [hp] at hf
        cases hf

/-- A session over memory that stands between two entries holds the rest of the bytes. -/
theorem Between.before (h : Between p (.ofBytes data) version s) :
    Before p version (data.drop s.bytesRead) s.bytesRead s := by
  have hkeeps := h.keeps (Read.rules_memory data p)
    (Input.midway_start h.fits data)
  exact ⟨hkeeps.profile, h.phase, (hkeeps.input (by rw [h.phase]; rfl)).holds, h.notes⟩

/-! ### Drains in parts -/

/-- Draining some entries more than none reads one of them first. -/
theorem exists_of_drain_succ {n : Nat} (h : s.drain (some (n + 1)) = (.enough, u)) :
    ∃ e t, s.next = (.ok (some e), t) ∧ t.drain (some n) = (.enough, u) := by
  have hl : some (n + 1) ≠ some 0 := by simp
  cases hn : s.next with
  | mk answer t =>
    rcases answer with e | _ | e
    · rw [drain_of_error hl hn] at h
      cases h
    · rw [drain_of_none hl hn] at h
      cases h
    · exact ⟨e, t, rfl, (drain_of_some hl hn).symm.trans h⟩

/-- After some entries a drain goes on where the session stands then. -/
theorem drain_of_enough {n : Nat} (h : s.drain (some n) = (.enough, u)) :
    s.drain none = u.drain none := by
  induction n generalizing s with
  | zero =>
    rw [drain_zero] at h
    cases h
    rfl
  | succ n ih =>
    obtain ⟨e, t, hn, ht⟩ := exists_of_drain_succ h
    rw [drain_of_some (by simp) hn]
    exact ih ht

/-- Draining some entries is reading as many times. -/
theorem run_of_enough {n : Nat} (h : s.drain (some n) = (.enough, u)) :
    ReadsSucceed s (List.replicate n .next) ∧ s.run (List.replicate n .next) = u := by
  induction n generalizing s with
  | zero =>
    rw [drain_zero] at h
    cases h
    exact ⟨trivial, rfl⟩
  | succ n ih =>
    obtain ⟨e, t, hn, ht⟩ := exists_of_drain_succ h
    obtain ⟨hok, hrun⟩ := ih ht
    have hstep : s.step .next = (.ok (.entry (some e)), t) := by
      simp only [step, hn]
      rfl
    rw [List.replicate_succ, ReadsSucceed, run, hstep]
    exact ⟨⟨rfl, hok⟩, hrun⟩

/-- A drain that fails fails after some entries. -/
theorem exists_of_drain_failed {e : Error} (h : s.drain none = (.failed e, s')) :
    ∃ n u, s.drain (some n) = (.enough, u) ∧ u.next = (.error e, s') := by
  generalize hlimit : (none : Option Nat) = limit at h
  fun_induction drain s limit with
  | case1 s => cases hlimit
  | case2 s limit hl e' t hn ih =>
    subst hlimit
    obtain ⟨n, u, hd, hu⟩ := ih rfl h
    have hsucc : some (n + 1) ≠ some 0 := by simp
    exact ⟨n + 1, u, (drain_of_some hsucc hn).trans hd, hu⟩
  | case3 s limit hl t hn => cases h
  | case4 s limit hl e' t hn =>
    cases h
    exact ⟨0, s, drain_zero s, hn⟩

/-! ### Counted bytes -/

theorem counted_next {e : Entry Packed} (h : s.next = (.ok (some e), s')) :
    s'.counted = s'.bytesRead := by
  obtain ⟨t, version, -, hread⟩ := exists_readEntry h
  unfold readEntry at hread
  split at hread
  · cases hread
    cases e <;> rfl
  · cases hread

/-- After an entry all bytes read have been counted with entries. -/
theorem counted_drain {n : Nat} (h : s.drain (some (n + 1)) = (.enough, u)) :
    u.counted = u.bytesRead := by
  induction n generalizing s with
  | zero =>
    obtain ⟨e, t, hn, ht⟩ := exists_of_drain_succ h
    rw [drain_zero] at ht
    cases ht
    exact counted_next hn
  | succ n ih =>
    obtain ⟨e, t, -, ht⟩ := exists_of_drain_succ h
    exact ih ht

theorem counted_openSnapshot (s : Session) : s.openSnapshot.2.counted = s.counted := by
  unfold openSnapshot
  split
  · rfl
  · exact counted_fail _ _

theorem counted_readEntry_error {e : Error} (h : s.readEntry version = (.error e, s')) :
    s'.counted = s.counted := by
  unfold readEntry at h
  split at h
  · cases h
  · cases h
    exact counted_fail _ _

/-- A read that fails counts nothing. -/
theorem counted_next_error {e : Error} (h : s.next = (.error e, s')) :
    s'.counted = s.counted := by
  unfold next at h
  split at h
  · cases h
    rfl
  · cases h
    rfl
  · cases h
  · exact counted_readEntry_error h
  · have ho := counted_openSnapshot s
    split at h
    · rename_i hs
      rw [hs] at ho
      exact (counted_readEntry_error h).trans ho
    · rename_i hs
      rw [hs] at ho
      cases h
      exact ho

/-- A read that fails delivers nothing. -/
theorem entries_next_error {e : Error} (h : s.next = (.error e, s')) : s'.entries = s.entries := by
  have hn := entries_next s
  rw [h] at hn
  simpa [delivered] using hn

/-! ### Cuts between two entries -/

/-- A session before no bytes fails for want of them, and delivers and counts nothing more. -/
theorem drain_nil {n : Nat} (h : Before p version [] n s) :
    ∃ s', s.drain none = (.failed (.reading (.truncated n 1)), s') ∧ s'.entries = s.entries ∧
      s'.counted = s.counted := by
  obtain ⟨i, hbyte, -⟩ := Read.next_of_holds_nil h.holds 1
  have hinput : ReadRecord.fromInput Read.byte s.intake =
      .error (.truncated n 1) { s.intake with input := i } := by
    unfold ReadRecord.fromInput Read.byte
    rw [hbyte]
  have hentry : ReadRecord.entry s.profile version s.intake =
      .error (.truncated n 1) { s.intake with input := i } :=
    ReadRecord.entry_of_error (bind_of_error hinput)
  have hnext := (next_of_ready h.phase).trans (readEntry_of_error hentry)
  exact ⟨_, drain_of_error nofun hnext, entries_next_error hnext, counted_next_error hnext⟩

/-- Draining a header with `bs` behind it takes `bs` whole: it ends for want of bytes, and all of
them have been counted with entries. -/
structure TakenWhole (p : Profile) (version : Nat) (bs : Bytes) : Prop where
  cut : (drained p (Wire.header version ++ bs)).1.IsTruncation
  counted : bs = [] ∨
    (drained p (Wire.header version ++ bs)).2.counted = (Wire.header version ++ bs).length

/-- Memory that is drained until it ends answers. -/
theorem fits_of_isTruncation (h : (drained p data).1.IsTruncation) :
    MachineWord.Fits p.bufferSize := by
  by_cases hfits : MachineWord.Fits p.bufferSize
  · exact hfits
  · obtain ⟨consumed, needed, hd⟩ := h
    rw [drained, drain_start_of_not_fits hfits] at hd
    cases hd

/-- When a drain is cut short and all bytes have been counted with entries, the session stands
there after some entries, and has still to find that nothing follows. -/
theorem exists_enough (hcut : (drained p data).1.IsTruncation) (hne : data ≠ [])
    (hcounted : (drained p data).2.counted = data.length) :
    ∃ n u s' e, (start p (.ofBytes data)).drain (some (n + 1)) = (.enough, u) ∧
      u.next = (.error (.reading e), s') ∧ u.bytesRead = data.length ∧
      u.entries = (drained p data).2.entries := by
  obtain ⟨consumed, needed, hending⟩ := hcut
  generalize hd : drained p data = d at hending hcounted
  obtain ⟨ending, s'⟩ := d
  cases hending
  obtain ⟨n, u, hn, hu⟩ := exists_of_drain_failed hd
  have hcounted' : u.counted = data.length := (counted_next_error hu).symm.trans hcounted
  cases n with
  | zero =>
    -- before the first entry nothing has been counted
    rw [drain_zero] at hn
    cases hn
    exact absurd (List.length_eq_zero_iff.mp hcounted'.symm) hne
  | succ n =>
    exact ⟨n, u, s', _, hn, hu, (counted_drain hn).symm.trans hcounted',
      (entries_next_error hu).symm⟩

/-- More bytes behind a snapshot change nothing of the entries that it holds. -/
theorem drain_enough_append (hfits : MachineWord.Fits p.bufferSize) {n : Nat}
    (h : (start p (.ofBytes data)).drain (some n) = (.enough, u)) (more : Bytes) :
    ∃ t, (start p (.ofBytes (data ++ more))).drain (some n) = (.enough, t) ∧
      Twins (extension data.length more) u t := by
  have hb := drain_beside (extension_sound _ _) (twins_append hfits data more) (some n)
  rw [h] at hb
  generalize (start p (.ofBytes (data ++ more))).drain (some n) = d at hb
  cases hb with
  | @same _ _ t htwins _ => exact ⟨t, rfl, htwins⟩

/-- After some entries the version is that of the header. -/
theorem version_of_enough {bs : Bytes} (hmin : p.minVersion ≤ version)
    (hmax : version ≤ p.maxVersion) (hfits : MachineWord.Fits p.bufferSize) {n : Nat}
    (h : (start p (.ofBytes (Wire.header version ++ bs))).drain (some (n + 1)) = (.enough, u)) :
    u.phase.version? = some version := by
  have hsource : (Source.ofBytes (Wire.header version ++ bs)).Delivers _ p.bufferSize :=
    .contents hfits
  obtain ⟨s, hopen, hs, -⟩ := openSnapshot_header hmin hmax hsource
  have hl : some (n + 1) ≠ some 0 := nofun
  have hv : s.phase.version? = some version := by
    rw [hs.phase]
    rfl
  have hd := drain_invariant (P := fun s => s.phase.version? = some version)
    (fun _ => version_next) hv (some (n + 1))
  rwa [← drain_congr hl (next_of_openSnapshot hopen), h] at hd

/-- A session that is ready after some entries stands between two. -/
theorem between_of_enough {source : Source} {n : Nat}
    (h : (start p source).drain (some n) = (.enough, s)) (hp : s.phase = .ready version) :
    Between p source version s := by
  obtain ⟨hok, rfl⟩ := run_of_enough h
  exact .after hok hp

/-- With more bytes behind it, a snapshot that is taken whole is drained up to where these bytes
begin, and goes on from there. -/
theorem exists_resumption {bs more : Bytes} (hmin : p.minVersion ≤ version)
    (hmax : version ≤ p.maxVersion) (h : TakenWhole p version bs) :
    ∃ s, (start p (.ofBytes (Wire.header version ++ (bs ++ more)))).drain none = s.drain none ∧
      Before p version more (Wire.header version ++ bs).length s ∧
      s.entries = (drained p (Wire.header version ++ bs)).2.entries := by
  have hfits := fits_of_isTruncation h.cut
  rcases h.counted with rfl | hcounted
  · -- with nothing behind it the header is all that has been read
    have hs : (Source.ofBytes (Wire.header version ++ [])).Delivers _ p.bufferSize :=
      .contents hfits
    have ht : (Source.ofBytes (Wire.header version ++ more)).Delivers _ p.bufferSize :=
      .contents hfits
    obtain ⟨s, hsd, hs, hse⟩ := drain_header hmin hmax hs
    obtain ⟨t, htd, ht, hte⟩ := drain_header hmin hmax ht
    obtain ⟨s', hd, hs', -⟩ := drain_nil hs
    have hdrained : drained p (Wire.header version ++ []) = _ := hsd.trans hd
    refine ⟨t, htd, ?_, ?_⟩
    · rwa [List.append_nil]
    · rw [hdrained, hs', hse, hte]
  · -- the session that has read `bs` fails next: it is ready, and so is its twin before `more`
    have hne : Wire.header version ++ bs ≠ [] := by
      intro hnil
      cases hnil
    obtain ⟨n, u, s', e, hn, hu, hread, hentries⟩ := exists_enough h.cut hne hcounted
    rw [← List.append_assoc]
    obtain ⟨s, hs, htwins⟩ := drain_enough_append hfits hn more
    have hphase : s.phase = .ready version := by
      have hv := version_of_enough hmin hmax hfits hn
      exact htwins.phase.symm.trans (phase_of_next_reading hu hv)
    have hbefore := (between_of_enough hs hphase).before
    have hcount : s.bytesRead = (Wire.header version ++ bs).length :=
      htwins.bytesRead.symm.trans hread
    rw [hcount, List.drop_left] at hbefore
    exact ⟨s, drain_of_enough hs, hbefore, htwins.entries.symm.trans hentries⟩

/-! ### The same from then on -/

/-- The drain `joint` delivers what `first` delivers and then what `second` does, and is like
`second` in all else, after `k` more bytes. -/
structure DrainedInParts (k : Nat) (first second joint : Ending × Session) : Prop where
  ending : joint.1 = second.1.shift k
  entries : joint.2.entries = first.2.entries ++ second.2.entries
  phase : joint.2.phase = second.2.phase
  bytesRead : joint.2.bytesRead = second.2.bytesRead + k

/-- A snapshot with more bytes behind it is drained in parts. -/
theorem drainedInParts {bs : Bytes} (hmin : p.minVersion ≤ version)
    (hmax : version ≤ p.maxVersion) (h : TakenWhole p version bs) (more : Bytes) :
    DrainedInParts bs.length (drained p (Wire.header version ++ bs))
      (drained p (Wire.header version ++ more))
      (drained p (Wire.header version ++ (bs ++ more))) := by
  have hsource : (Source.ofBytes (Wire.header version ++ more)).Delivers _ p.bufferSize :=
    .contents (fits_of_isTruncation h.cut)
  obtain ⟨s, hsd, hs, hse⟩ := drain_header hmin hmax hsource
  obtain ⟨t, htd, ht, hte⟩ := @exists_resumption p version bs more hmin hmax h
  have hcount : t.bytesRead = s.bytesRead + bs.length := by
    have hsn : s.bytesRead = (Wire.header version).length := hs.holds.consumed
    have htn : t.bytesRead = (Wire.header version ++ bs).length := ht.holds.consumed
    rw [htn, hsn, List.length_append]
  obtain ⟨⟨ending, hes, het⟩, ⟨later, hls, hlt⟩, hphase, ⟨count, hcs, hct⟩⟩ :=
    drain_of_before hs ht none
  unfold drained at *
  rw [hsd, htd]
  exact
    { ending := by rw [het, hes, Ending.shift_shift, hcount]
      entries := by rw [hlt, hls, hse, hte, Array.empty_append]
      phase := hphase.symm
      bytesRead := by rw [hct, hcs, hcount, Nat.add_assoc] }

/-- **Nothing is hidden between two entries.** Two sessions over memory that stand between entries
of snapshots of one version, before the same bytes, give the same reports whatever is done with
them from then on, each counting from where it stands. And when draining a header and `bs` takes
`bs` whole, draining a header, `bs` and `more` gives the entries of `bs` and then what draining a
header and `more` gives. -/
theorem same_later (p : Profile) (version : Nat) :
    (∀ (data data' : Bytes) (s t : Session), Between p (.ofBytes data) version s →
      Between p (.ofBytes data') version t → data.drop s.bytesRead = data'.drop t.bytesRead →
        ∀ ops : List LaterStep, ∃ reports : List Report,
          s.laterTranscript s.entries.size ops = reports.map (Report.shift s.bytesRead) ∧
            t.laterTranscript t.entries.size ops = reports.map (Report.shift t.bytesRead)) ∧
      ∀ bs more : Bytes, p.minVersion ≤ version → version ≤ p.maxVersion →
        TakenWhole p version bs →
          DrainedInParts bs.length (drained p (Wire.header version ++ bs))
            (drained p (Wire.header version ++ more))
            (drained p (Wire.header version ++ (bs ++ more))) := by
  refine ⟨fun data data' s t hs ht hrest ops => ?_, fun bs more hmin hmax h => ?_⟩
  · have hbefore := ht.before
    rw [← hrest] at hbefore
    exact laterTranscript_of_before hs.before hbefore ops
  · exact drainedInParts hmin hmax h more

/-- A selection of a database, on the wire. -/
def selectRecord : Bytes :=
  [0xFE, 3]

/-- The end of a snapshot of version 11, on the wire. -/
def endRecord : Bytes :=
  Opcode.eof.code :: List.replicate checksumWidth 0

theorem selectRecord_form : Wire.RecordForm .standard 11 (.selectDb 3) selectRecord :=
  .selectDb rfl (.six (by decide))

/-- A session over a header with a selection behind it reads the selection first. -/
theorem drain_selectRecord (rest : Bytes) :
    ∃ s, (start .standard (.ofBytes (Wire.header 11 ++ (selectRecord ++ rest)))).drain (some 1) =
        (.enough, s) ∧ Before .standard 11 rest 11 s := by
  have hsource : (Source.ofBytes (Wire.header 11 ++ (selectRecord ++ rest))).Delivers _
      Profile.standard.bufferSize := .contents (by decide)
  obtain ⟨s, hopen, hs, -⟩ := openSnapshot_header (by decide) (by decide) hsource
  obtain ⟨intake, hnext, hi, hn⟩ := next_of_reads selectRecord_form.reads hs
  have hl : some 1 ≠ some 0 := nofun
  exact ⟨_, (drain_of_some hl ((next_of_openSnapshot hopen).trans hnext)).trans (drain_zero _),
    ⟨hs.profile, hs.phase, hi, hn⟩⟩

theorem takenWhole_selectRecord : TakenWhole .standard 11 selectRecord := by
  obtain ⟨s, hd, hs⟩ := drain_selectRecord []
  obtain ⟨s', hnil, -, hcounted⟩ := drain_nil hs
  have hdrained : drained .standard (Wire.header 11 ++ selectRecord) =
      (.failed (.reading (.truncated 11 1)), s') := (drain_of_enough hd).trans hnil
  rw [counted_drain hd, show s.bytesRead = 11 from hs.holds.consumed] at hcounted
  exact
    { cut := ⟨11, 1, by rw [hdrained]⟩
      counted := .inr (by rw [hdrained]; exact hcounted) }

/-- Before the end of a snapshot nothing tells whether a database has been selected. -/
theorem same_later_selectRecord : ∃ s t,
    Between .standard (.ofBytes (Wire.header 11 ++ endRecord)) 11 s ∧
      Between .standard (.ofBytes (Wire.header 11 ++ (selectRecord ++ endRecord))) 11 t ∧
      s.bytesRead = 9 ∧ t.bytesRead = 11 ∧
      (∀ ops : List LaterStep, ∃ reports : List Report,
        s.laterTranscript s.entries.size ops = reports.map (Report.shift 9) ∧
          t.laterTranscript t.entries.size ops = reports.map (Report.shift 11)) ∧
      DrainedInParts 2 (drained .standard (Wire.header 11 ++ selectRecord))
        (drained .standard (Wire.header 11 ++ endRecord))
        (drained .standard (Wire.header 11 ++ (selectRecord ++ endRecord))) := by
  have hsource : (Source.ofBytes (Wire.header 11 ++ endRecord)).Delivers _
      Profile.standard.bufferSize := .contents (by decide)
  obtain ⟨s, hopen, hs, -⟩ := openSnapshot_header (by decide) (by decide) hsource
  obtain ⟨t, hd, ht⟩ := drain_selectRecord endRecord
  have hsb : Between .standard (.ofBytes (Wire.header 11 ++ endRecord)) 11 s := .opened hopen
  have htb := between_of_enough hd ht.phase
  have hsn : s.bytesRead = 9 := hs.holds.consumed
  have htn : t.bytesRead = 11 := ht.holds.consumed
  obtain ⟨hlater, hparts⟩ := same_later .standard 11
  have hreports := hlater _ _ s t hsb htb (by rw [hsn, htn]; rfl)
  rw [hsn, htn] at hreports
  exact ⟨s, t, hsb, htb, hsn, htn, hreports,
    hparts selectRecord endRecord (by decide) (by decide) takenWhole_selectRecord⟩

end Session

end RedisDump
