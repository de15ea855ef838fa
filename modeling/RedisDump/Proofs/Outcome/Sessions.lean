import RedisDump.Proofs.Extension
import RedisDump.Proofs.Outcome.Elements
import RedisDump.Session.Steps

/-!
# What every session keeps

Whatever is done with a session, its version is one that its profile accepts, what it has
delivered goes on to resemble what was read (`Entry.Genuine`), and as long as it is open its input
is in whatever state single bytes leave it in. Each operation keeps this (`Keeps.step`), so every
run does (`Keeps.run`). A read that fails has met an error of reading bytes, or it has refused a
part of the format that is newer than the version of the session (`ReadFails`).
-/

namespace RedisDump

namespace Session

open Read (Rules)

/-- What every session keeps whose input stays in `P`. -/
structure Keeps (p : Profile) (P : Input → Prop) (s : Session) : Prop where
  profile : s.profile = p
  input : s.phase.isClosed = false → P s.intake.input
  version : ∀ v, s.phase.version? = some v → p.minVersion ≤ v ∧ v ≤ p.maxVersion
  entries : ∀ e ∈ s.entries, Entry.Genuine p e

/-- A read that fails with an error in `E`, or refuses a part of the format that is newer than the
version that the failed session goes on to have. -/
def ReadFails (p : Profile) (E : ReadError → Prop) (e : ReadError) (s : Session) : Prop :=
  E e ∨ ∃ version part, s.phase = .failed (some version) ∧ p.refuses part version = true ∧
    e = .format (.tooNew part version)

variable {p : Profile} {P : Input → Prop} {E : ReadError → Prop} {s s' : Session}

theorem keeps_start {source : Source} (h : P { source, bufferSize := p.bufferSize }) :
    Keeps p P (start p source) where
  profile := rfl
  input := fun _ => h
  version := by rintro v ⟨⟩
  entries := fun e he => absurd he (Array.not_mem_empty e)

namespace Keeps

/-! ### Parts of a read -/

theorem withIntake (h : Keeps p P s) {i : Intake} (hi : P i.input) :
    Keeps p P { s with intake := i } :=
  { h with input := fun _ => hi }

theorem withEntries (h : Keeps p P s) {entries : Array (Entry Packed)}
    (he : ∀ e ∈ entries, Entry.Genuine p e) : Keeps p P { s with entries := entries } :=
  { h with entries := he }

theorem fail (h : Keeps p P s) (hi : P s.intake.input) (e : ReadError) : Keeps p P (s.fail e) := by
  unfold Session.fail
  split
  · exact { h with input := fun _ => hi }
  · exact h

theorem accept (h : Keeps p P s) (hi : P s.intake.input) {version : Nat}
    (hv : p.minVersion ≤ version ∧ version ≤ p.maxVersion) : Keeps p P (s.accept version) where
  profile := h.profile
  input := fun _ => hi
  version := by
    rintro v ⟨⟩
    exact hv
  entries := h.entries

theorem advance (h : Keeps p P s) {version : Nat} (hp : s.phase = .ready version)
    (e : Entry Packed) : Keeps p P (s.advance version e) := by
  have hi : P s.intake.input := h.input (by rw [hp]; rfl)
  have hv := h.version version (by rw [hp]; rfl)
  cases e with
  | eof checksum =>
    refine { h with input := fun _ => hi, version := ?_ }
    rintro v ⟨⟩
    exact hv
  | selectDb | resizeDb | aux | keyValue => exact h

theorem deliver (h : Keeps p P s) {e : Entry Packed} (he : Entry.Genuine p e) :
    Keeps p P (s.deliver e) := by
  refine { h with entries := fun e' hmem => ?_ }
  rcases Array.mem_push.mp hmem with hmem | rfl
  · exact h.entries e' hmem
  · exact he

/-! ### Reads -/

variable (hr : Rules P E p)

include hr

theorem openSnapshot (h : Keeps p P s) (hp : s.phase = .fresh) : Keeps p P s.openSnapshot.2 := by
  have hyields : ReadRecord.Yields P _ E p 0 _ :=
    ReadRecord.yields_fromInput (hr.header s.profile)
  have hend := hyields s.intake (h.input (by rw [hp]; rfl))
  unfold Session.openSnapshot
  generalize ReadRecord.fromInput (Read.header s.profile) s.intake = x at hend
  cases hend with
  | ok hv hi =>
    rw [h.profile] at hv
    exact (h.withIntake hi).accept hi hv
  | error _ hi => exact (h.withIntake hi).fail hi _

theorem openSnapshot_error {e : Error} (h : Keeps p P s) (hp : s.phase = .fresh)
    (ho : s.openSnapshot = (.error e, s')) : ∃ r, e = .reading r ∧ E r := by
  have hend := hr.header s.profile s.intake.input (h.input (by rw [hp]; rfl))
  unfold Session.openSnapshot ReadRecord.fromInput at ho
  generalize Read.header s.profile s.intake.input = x at hend ho
  cases hend with
  | ok hv hi => cases ho
  | error he hi =>
    cases ho
    exact ⟨_, rfl, he⟩

theorem readEntry (h : Keeps p P s) {version : Nat} (hp : s.phase = .ready version) :
    Keeps p P (s.readEntry version).2 := by
  have hyields : ReadRecord.Yields P _ E p version _ := ReadRecord.entry_yields hr
  have hend := hyields s.intake (h.input (by rw [hp]; rfl))
  rw [← h.profile] at hend
  unfold Session.readEntry
  generalize ReadRecord.entry s.profile version s.intake = x at hend
  cases hend with
  | ok he hi =>
    rw [h.profile] at he
    obtain ⟨hmin, hmax⟩ := h.version version (by rw [hp]; rfl)
    exact ((h.withIntake hi).advance hp _).deliver ⟨version, _, hmin, hmax, he, .refl _⟩
  | error _ hi => exact (h.withIntake hi).fail hi _

theorem readEntry_error (h : Keeps p P s) {version : Nat} {e : ReadError}
    (hp : s.phase = .ready version) (hs : s.readEntry version = (.error (.reading e), s')) :
    ReadFails p E e s' := by
  have hyields : ReadRecord.Yields P _ E p version _ := ReadRecord.entry_yields hr
  have hend := hyields s.intake (h.input (by rw [hp]; rfl))
  rw [← h.profile] at hend
  unfold Session.readEntry at hs
  generalize ReadRecord.entry s.profile version s.intake = x at hend hs
  cases hend with
  | ok he hi => cases hs
  | error he hi =>
    cases hs
    rcases he with he | ⟨part, hpart, rfl⟩
    · exact .inl he
    · refine .inr ⟨version, part, ?_, h.profile ▸ hpart, rfl⟩
      simp [Session.fail, ReadError.isFault, hp, Phase.version?]

theorem next (h : Keeps p P s) : Keeps p P s.next.2 :=
  next_invariant (fun _ hp hs => hs.openSnapshot hr hp) (fun _ _ hp hs => hs.readEntry hr hp) h

/-- Why a read may fail. -/
theorem next_error (h : Keeps p P s) {e : ReadError} (hn : s.next = (.error (.reading e), s')) :
    ReadFails p E e s' := by
  unfold Session.next at hn
  split at hn
  · cases hn
  · cases hn
  · cases hn
  · rename_i hp
    exact h.readEntry_error hr hp hn
  · rename_i hp
    have ho := h.openSnapshot hr hp
    split at hn
    · rename_i hs
      rw [hs] at ho
      exact ho.readEntry_error hr (phase_of_openSnapshot hs) hn
    · rename_i hs
      cases hn
      obtain ⟨r, he, hE⟩ := h.openSnapshot_error hr hp hs
      cases he
      exact .inl hE

theorem drain (h : Keeps p P s) (limit : Option Nat) : Keeps p P (s.drain limit).2 :=
  drain_invariant (fun _ hs => hs.next hr) h limit

omit hr in
theorem close (h : Keeps p P s) : Keeps p P s.close := by
  unfold Session.close
  split
  · exact h
  · exact { h with input := nofun }

omit hr in
theorem forceAll (h : Keeps p P s) : Keeps p P s.forceAll.2 :=
  h.withEntries (Entry.forall_forceValues Entry.Genuine.force h.entries)

omit hr in
theorem ask (h : Keeps p P s) (q : Entry.Step) : Keeps p P (s.ask q).2 :=
  h.withEntries (Entry.forall_step Entry.Genuine.force h.entries q)

theorem demand (h : Keeps p P s) : Keeps p P s.demand.2 := by
  have hn := h.next hr
  unfold Session.demand
  generalize s.next = r at hn
  obtain ⟨answer, t⟩ := r
  rcases answer with e | _ | e
  · exact hn
  · exact hn
  · exact hn

/-! ### Runs -/

theorem step (h : Keeps p P s) (op : Step) : Keeps p P (s.step op).2 := by
  cases op with
  | next => exact h.next hr
  | demand => exact h.demand hr
  | drain => exact h.drain hr none
  | close => exact h.close
  | allValues => exact h.forceAll
  | metrics | log | closeCalls => exact h
  | ask q => exact h.ask q

theorem run (h : Keeps p P s) (ops : List Step) : Keeps p P (s.run ops) :=
  run_invariant (fun _ op hs => hs.step hr op) h ops

end Keeps

end Session

/-! ### Sessions over memory -/

/-- An input over `data` in memory that holds what it has not handed out. -/
structure Input.Midway (data : Bytes) (i : Input) : Prop where
  holds : Input.Holds (data.drop i.consumed) i.consumed i
  consumed_le : i.consumed ≤ data.length

/-- What reading a byte from memory does: there is one, or the read is cut short. -/
theorem Read.next_of_midway {data : Bytes} {i : Input} (h : Input.Midway data i) (needed : Nat) :
    (∃ b i', data[i.consumed]? = some b ∧ Read.next needed i = .ok b i' ∧
        Input.Midway data i' ∧ i'.consumed = i.consumed + 1) ∨
      data.length = i.consumed ∧ ∃ i',
        Read.next needed i = .error (.truncated i.consumed needed) i' ∧
          Input.Midway data i' ∧ i'.consumed = i.consumed := by
  obtain ⟨hi, hle⟩ := h
  cases hd : data.drop i.consumed with
  | nil =>
    have hlen : data.length = i.consumed := by
      have := List.drop_eq_nil_iff.mp hd
      omega
    rw [hd] at hi
    obtain ⟨i', hr, hi'⟩ := Read.next_of_holds_nil hi needed
    have hc := hi'.consumed
    refine .inr ⟨hlen, i', hr, ⟨by rwa [hc, hd], by omega⟩, hc⟩
  | cons b bs =>
    have hb : data[i.consumed]? = some b := by
      rw [← List.head?_drop, hd]
      rfl
    have hbs : data.drop (i.consumed + 1) = bs := by
      rw [← List.tail_drop, hd, List.tail_cons]
    have hlt : i.consumed < data.length := (List.getElem?_eq_some_iff.mp hb).1
    rw [hd] at hi
    obtain ⟨i', hr, hi'⟩ := Read.next_of_holds_cons hi needed
    have hc := hi'.consumed
    exact .inl ⟨b, i', hb, hr, ⟨by rwa [hc, hbs], by omega⟩, hc⟩

namespace Input

theorem midway_start {p : Profile} (hfits : MachineWord.Fits p.bufferSize) (data : Bytes) :
    Midway data { source := .ofBytes data, bufferSize := p.bufferSize } where
  holds := (Source.Delivers.contents hfits).holds p.bufferSize_pos
  consumed_le := Nat.zero_le _

/-- Reading a byte from memory fails for want of bytes only. -/
theorem next_midway (data : Bytes) (needed : Nat) :
    Ensures (Midway data) Anything (fun e => e.isTruncation = true) (Read.next needed) := by
  intro i hi
  rcases Read.next_of_midway hi needed with ⟨b, i', -, hr, hi', -⟩ | ⟨-, i', hr, hi', -⟩
  · rw [hr]
    exact .ok trivial hi'
  · rw [hr]
    exact .error rfl hi'

end Input

/-- The rules of reading from memory, for errors in which are all cuts. -/
theorem Read.rules_midway {E : ReadError → Prop} {p : Profile} (data : Bytes)
    (hcut : ∀ e : ReadError, e.isTruncation = true → E e)
    (hfault : ∀ e : ReadError, e.isFault = true → e.isGate = false → E e)
    (hpayload : ∀ (size : Nat) (bs : Bytes) (e : Lzf.Refusal), (size : Int) ≤ p.textLimit →
      Lzf.decompressTo size bs = .error e → E (.payload e))
    (hlimits : p.WritableLimits ∨ E (.tooLarge .unwritable)) : Rules (Input.Midway data) E p where
  next := fun needed => (Input.next_midway data needed).raises hcut
  fault := hfault
  payload := hpayload
  limits := hlimits

theorem Read.rules_memory (data : Bytes) (p : Profile) : Rules (Input.Midway data) Anything p :=
  rules_midway data (fun _ _ => trivial) (fun _ _ _ => trivial) (fun _ _ _ _ _ => trivial)
    (.inr trivial)

/-- A run over memory that answers keeps the session over what has not been handed out. -/
theorem Session.keeps_memory {p : Profile} (hfits : MachineWord.Fits p.bufferSize) (data : Bytes)
    (ops : List Step) : Keeps p (Input.Midway data) ((start p (.ofBytes data)).run ops) :=
  (keeps_start (Input.midway_start hfits data)).run (Read.rules_memory data p) ops

end RedisDump
