import RedisDump.Proofs.Lifecycle
import RedisDump.Proofs.Outcome.Sizes
import RedisDump.Proofs.Wire.Excess

/-!
# Size guards

What holds of every entry as it is read, and goes on to hold when its elements are decoded, holds of
all that a session has delivered (`run_delivers`). So over every source and at every time the
strings and collections that have been returned are within the limits; and wherever a size above its
limit is declared, it is refused just behind the declaration (`sizeGuarded_run`). Of a compressed
string both lengths are read before either is checked, so the length of a payload is not refused
while that of the string is malformed; and what is above a limit that cannot be written out is not
refused for good (`not_refused_beyond_bounds`).
-/

namespace RedisDump.Session

variable {p : Profile} {s t : Session}

/-! ### Delivered entries -/

section

variable {Q : Entry Packed → Prop}

/-- The session is of the profile, and `Q` holds of all that it has delivered. -/
structure Delivers (p : Profile) (Q : Entry Packed → Prop) (s : Session) : Prop where
  profile : s.profile = p
  entries : ∀ e ∈ s.entries, Q e

variable (hread : ∀ version i e j, ReadRecord.entry p version i = .ok e j → Q e)
  (hforce : ∀ fields values, Q (.keyValue fields values) → Q (.keyValue fields values.force.2))

include hread

theorem Delivers.next (h : Delivers p Q s) : Delivers p Q s.next.2 := by
  refine next_invariant ?_ ?_ h
  · intro s _ hs
    refine ⟨(profile_openSnapshot s).trans hs.profile, ?_⟩
    rw [entries_openSnapshot]
    exact hs.entries
  · intro s version _ hs
    refine ⟨(profile_readEntry s version).trans hs.profile, ?_⟩
    cases hr : ReadRecord.entry s.profile version s.intake with
    | error e intake =>
      rw [readEntry_of_error hr, entries_fail]
      exact hs.entries
    | ok e intake =>
      rw [readEntry_of_ok hr, entries_deliver, entries_advance]
      rw [hs.profile] at hr
      intro e' hmem
      rcases Array.mem_push.mp hmem with hmem | rfl
      · exact hs.entries e' hmem
      · exact hread _ _ _ _ hr

include hforce

theorem Delivers.step (h : Delivers p Q s) (op : Step) : Delivers p Q (s.step op).2 := by
  cases op with
  | next => exact h.next hread
  | demand =>
    have hsnd : (s.step .demand).2 = s.next.2 := demand_snd s
    rw [hsnd]
    exact h.next hread
  | drain => exact drain_invariant (fun _ hs => hs.next hread) h none
  | close =>
    refine ⟨(profile_step s .close).trans h.profile, ?_⟩
    simp only [Session.step, close]
    split
    · exact h.entries
    · exact h.entries
  | allValues => exact ⟨h.profile, Entry.forall_forceValues hforce h.entries⟩
  | metrics | log | closeCalls => exact h
  | ask q => exact ⟨h.profile, Entry.forall_step hforce h.entries q⟩

/-- What is read and kept holds of all that a session delivers. -/
theorem run_delivers (source : Source) (ops : List Step) :
    Delivers p Q ((start p source).run ops) :=
  run_invariant (fun _ op hs => hs.step hread hforce op)
    ⟨rfl, fun e he => absurd he (Array.not_mem_empty e)⟩ ops

end

/-! ### Sizes -/

/-- The session `t` is `s` when its header has been accepted, which may be to come. -/
inductive Opened (s : Session) (version : Nat) : Session → Prop where
  | before : s.phase = .ready version → Opened s version s
  | now {t : Session} : s.phase = .fresh → s.openSnapshot = (.ok version, t) → Opened s version t

theorem Opened.next {version : Nat} (h : Opened s version t) : s.next = t.readEntry version := by
  cases h with
  | before hp => exact next_of_ready hp
  | now hp ho => exact next_of_fresh hp ho

theorem Opened.phase {version : Nat} (h : Opened s version t) : t.phase = .ready version := by
  cases h with
  | before hp => exact hp
  | now _ ho => exact phase_of_openSnapshot ho

theorem Opened.profile {version : Nat} (h : Opened s version t) : t.profile = s.profile := by
  cases h with
  | before => rfl
  | now _ ho =>
    have hprofile := profile_openSnapshot s
    rwa [ho] at hprofile

/-- The sizes in a session are guarded: what it has delivered is within the limits of its profile,
and a size above its limit that comes next is refused just behind it, with the session failed. Only
a limit that cannot be written out has no refusal, and leaves the session as it is there. -/
structure SizeGuarded (p : Profile) (s : Session) : Prop where
  entries : ∀ e ∈ s.entries, e.WithinLimits p
  refuses : ∀ (t : Session) (version : Nat) (e : SizeError) (bs : Bytes) (after : Input),
    Opened s version t → Wire.EntryExcess p version t.intake.notes e bs →
      Input.Gives bs t.intake.input after →
        ∃ s', s.next = (.error (.reading (.tooLarge e)), s') ∧ s'.intake.input = after ∧
          (s'.phase = if e.isFault then .failed (some version) else .ready version) ∧
          (p.WritableLimits → e.isFault = true)

/-- Reading under limits that can be written out fails with no error of writing them out. -/
theorem rules_writable (hlimits : p.WritableLimits) :
    Read.Rules Anything (fun e => e ≠ .tooLarge .unwritable) p where
  next needed := by
    intro i _
    unfold Read.next
    split
    · exact .ok trivial trivial
    · generalize i.source.read i.bufferSize = r
      obtain ⟨answer, source⟩ := r
      rcases answer with e | _ | ⟨b, bs⟩
      · exact .error nofun trivial
      · exact .error nofun trivial
      · exact .ok trivial trivial
  fault := by
    rintro _ hfault - rfl
    cases hfault
  payload _ _ _ _ _ := nofun
  limits := .inl hlimits

theorem isFault_of_entry (hlimits : p.WritableLimits) {version : Nat} {i i' : Intake}
    {e : SizeError} (h : ReadRecord.entry p version i = .error (.tooLarge e) i') :
    e.isFault = true := by
  have hyields : ReadRecord.Yields Anything _ _ p version _ :=
    ReadRecord.entry_yields (rules_writable hlimits)
  have hend := hyields i trivial
  rw [h] at hend
  obtain ⟨hne | ⟨part, -, heq⟩, -⟩ := hend.of_error
  · cases e with
    | tooManyElements | tooLongText => rfl
    | unwritable => exact absurd rfl hne
  · cases heq

/-- **Sizes are guarded over whole runs.** -/
theorem sizeGuarded_run (p : Profile) (source : Source) (ops : List Step) :
    SizeGuarded p ((start p source).run ops) := by
  have hd : Delivers p (Entry.WithinLimits p) ((start p source).run ops) :=
    run_delivers (fun _ _ _ _ => ReadRecord.withinLimits_of_entry) Entry.WithinLimits.force source
      ops
  refine ⟨hd.entries, fun t version e bs after ho he hg => ?_⟩
  have hprofile := ho.profile.trans hd.profile
  obtain ⟨s', hread, hinput, hphase⟩ :=
    readEntry_of_gives_refused hprofile ho.phase rfl he.refuses hg
  refine ⟨s', ho.next.trans hread, hinput, hphase, fun hlimits => ?_⟩
  obtain ⟨intake, hentry, -⟩ := ReadRecord.entry_of_gives_refused he.refuses rfl hg
  exact isFault_of_entry hlimits hentry

/-- A profile for strings of five bytes at most. -/
def fiveByteTexts : Profile :=
  { Profile.standard with textLimit := 5 }

/-- A snapshot of version 11 that ends inside a key which is declared to have six bytes. -/
def longKeySnapshot : Bytes :=
  [0x52, 0x45, 0x44, 0x49, 0x53, 0x30, 0x30, 0x31, 0x31, 0x00, 0x06, 0x61]

/-- The key is refused behind its length, with the session failed before its first byte. -/
theorem sizeGuarded_run_longKeySnapshot :
    ∃ s', (start fiveByteTexts (.ofBytes longKeySnapshot)).next =
        (.error (.reading (.tooLarge (.tooLongText 5 6))), s') ∧
      s'.bytesRead = 11 ∧ s'.phase = .failed (some 11) := by
  have hheader : ReadRecord.fromInput (Read.header fiveByteTexts)
      (start fiveByteTexts (.ofBytes longKeySnapshot)).intake =
        .ok 11 (.behind .standard longKeySnapshot 9) := rfl
  have hopened : Opened (start fiveByteTexts (.ofBytes longKeySnapshot)) 11 _ :=
    .now rfl (openSnapshot_of_ok hheader)
  have hexcess : Wire.EntryExcess fiveByteTexts 11 {} (.ofText 5 6)
      ([] ++ ValueKind.string.code :: [0x06]) :=
    .key .nil rfl (.raw (.six (by decide)) (by decide))
  have hgives : Input.Gives ([] ++ ValueKind.string.code :: [0x06])
      (Intake.behind .standard longKeySnapshot 9).input
      (Intake.behind .standard longKeySnapshot 11).input :=
    .cons rfl (.cons rfl (.nil _))
  obtain ⟨s', hnext, hinput, hphase, -⟩ :=
    (sizeGuarded_run fiveByteTexts (.ofBytes longKeySnapshot) []).refuses _ 11 _ _ _ hopened hexcess
      hgives
  exact ⟨s', hnext, congrArg Input.consumed hinput, hphase⟩

/-- A snapshot of version 11 that ends inside a compressed key: its payload is declared to have ten
bytes, and what should be the length of the key is none. -/
def unsizedKeySnapshot : Bytes :=
  [0x52, 0x45, 0x44, 0x49, 0x53, 0x30, 0x30, 0x31, 0x31, 0x00, 0xC3, 0x0A, 0xFF]

/-- The length of a payload above the limit is not refused where it stands; and what is above a
limit that cannot be written out does not leave a failed session. -/
theorem not_refused_beyond_bounds :
    (¬ ∀ (p : Profile) (source : Source) (ops : List Step) (t : Session) (version n : Nat)
      (packed : Bytes) (after : Input), Opened ((start p source).run ops) version t →
        t.intake.notes = {} → Wire.Length n packed → p.textLimit < n →
        Input.Gives (ValueKind.string.code :: Wire.compressedCode :: packed) t.intake.input after →
          ∃ e s', ((start p source).run ops).next = (.error (.reading (.tooLarge e)), s')) ∧
    ¬ ∀ (p : Profile) (source : Source) (ops : List Step) (e : SizeError) (s' : Session),
      ((start p source).run ops).next = (.error (.reading (.tooLarge e)), s') →
        ∃ version?, s'.phase = .failed version? := by
  constructor
  · intro h
    let s := start fiveByteTexts (.ofBytes unsizedKeySnapshot)
    have hheader : ReadRecord.fromInput (Read.header s.profile) s.intake =
        .ok 11 (.behind .standard unsizedKeySnapshot 9) := rfl
    have hrecord : ReadRecord.record fiveByteTexts 11 (.behind .standard unsizedKeySnapshot 9) =
        .error (.format .notALength) (.behind .standard unsizedKeySnapshot 13) := rfl
    have hopened : Opened s 11 _ := .now rfl (openSnapshot_of_ok hheader)
    obtain ⟨e, s', hn⟩ := h fiveByteTexts (.ofBytes unsizedKeySnapshot) [] _ 11 10 [0x0A]
      (Intake.behind .standard unsizedKeySnapshot 12).input hopened rfl (.six (by decide))
      (by decide) (.cons rfl (.cons rfl (.cons rfl (.nil _))))
    have hread := readEntry_of_error
      (s := ({ s with intake := .behind .standard unsizedKeySnapshot 9 } : Session).accept 11)
      (ReadRecord.entry_of_error hrecord)
    have hnext := hopened.next.trans hread
    rw [show (start fiveByteTexts (.ofBytes unsizedKeySnapshot)).run [] = s from rfl, hnext] at hn
    cases hn
  · intro h
    obtain ⟨s', hn, hphase⟩ := next_unwritableTexts
    obtain ⟨version?, hfailed⟩ := h unwritableTexts (.ofBytes emptyKeySnapshot) [] _ s' hn
    rw [hphase] at hfailed
    cases hfailed

end RedisDump.Session
