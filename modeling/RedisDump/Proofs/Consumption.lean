import RedisDump.Proofs.Blind
import RedisDump.Proofs.Lifecycle

/-!
# What is read and what is left

A reader neither makes nor loses bytes: those that it takes from an input are counted, and the
others are still to come, whether it succeeds or fails (`Input.Onward`). So the bytes that a session
has read and those that it can still read are no more than the source had at first. A header takes
nine of them and every entry at least one more (`Spends`), which bounds the number of entries that
any run delivers (`size_entries_run`).
-/

namespace RedisDump

/-- The number of bytes of a header: five letters and four digits. -/
def Read.headerWidth : Nat := 9

/-- A source that does not answer keeps its bytes. -/
theorem Source.remaining_of_read_error {s s' : Source} {n : Int} {e : Source.Error}
    (h : s.read n = (.error e, s')) : s'.remaining = s.remaining := by
  unfold Source.read at h
  split at h
  · split at h
    · cases h
      rfl
    · split at h
      · cases h
        rfl
      · split at h <;> cases h
  · cases h
  · rename_i hs
    cases h
    simp [Source.remaining, hs, Source.portionSize]
  · cases h

/-- The second input has gone on from the first one: it has handed out at least as many bytes, and
what it has handed out more it has left less. -/
structure Input.Onward (i j : Input) : Prop where
  consumed : i.consumed ≤ j.consumed
  total : j.consumed + j.remaining = i.consumed + i.remaining

/-! ### Readers -/

theorem Input.Onward.refl (i : Input) : i.Onward i :=
  ⟨Nat.le_refl _, rfl⟩

theorem Input.Onward.trans {i j k : Input} (h : i.Onward j) (h' : j.Onward k) : i.Onward k :=
  ⟨Nat.le_trans h.consumed h'.consumed, h'.total.trans h.total⟩

theorem Read.remaining_next_error {needed : Nat} {i i' : Input} {e : ReadError}
    (h : Read.next needed i = .error e i') : i'.remaining = i.remaining := by
  unfold Read.next at h
  split at h
  · cases h
  · rename_i hu
    split at h
    · rename_i hs
      cases h
      simpa [Input.remaining, hu] using Source.remaining_of_read_error hs
    · rename_i hs
      cases h
      have := Source.remaining_read hs
      simpa [Input.remaining, hu] using this
    · cases h

theorem Read.next_onward (i : Input) (needed : Nat) :
    Ensures i.Onward Anything Anything (Read.next needed) := by
  intro j hj
  cases hr : Read.next needed j with
  | ok b k =>
    have hc := Read.consumed_next hr
    have hn := Read.remaining_next hr
    exact .ok trivial (hj.trans ⟨by omega, by omega⟩)
  | error e k =>
    have hc := Read.consumed_next_error hr
    have hn := Read.remaining_next_error hr
    exact .error trivial (hj.trans ⟨by omega, by omega⟩)

theorem Bytewise.onward {α : Type} {r : Read α} (h : Bytewise r) (i : Input) :
    Ensures i.Onward Anything Anything r := by
  induction h with
  | pure a => exact .pure trivial
  | throw _ => exact .throw trivial
  | next needed => exact Read.next_onward i needed
  | bind _ _ ihr ihf => exact ihr.bind fun a _ => ihf a

theorem Recordwise.onward {α : Type} {r : ReadRecord α} (h : Recordwise r) (i : Input) :
    Ensures (fun s : Intake => i.Onward s.input) Anything Anything r := by
  induction h with
  | input h =>
    exact ReadRecord.ensures_fromInput (h.onward i)
  | pure a => exact .pure trivial
  | throw _ => exact .throw trivial
  | consult _ ih => exact fun s hs => ih s.notes s hs
  | amend f => exact fun s hs => .ok trivial hs
  | bind _ _ ihr ihf => exact ihr.bind fun a _ => ihf a

theorem ReadRecord.entry_onward (p : Profile) (version : Nat) (i : Input) :
    Ensures (fun s : Intake => i.Onward s.input) Anything Anything (entry p version) := by
  intro s hs
  fun_induction entry p version s with
  | case1 s e s' hr =>
    have hend := (Recordwise.record p version).onward i s hs
    rw [hr] at hend
    exact .error trivial hend.of_error.2
  | case2 s e s' hr =>
    have hend := (Recordwise.record p version).onward i s hs
    rw [hr] at hend
    exact .ok trivial hend.of_ok.2
  | case3 s s' hr ih =>
    have hend := (Recordwise.record p version).onward i s hs
    rw [hr] at hend
    exact ih hend.of_ok.2

/-- A reader that leaves less than it found has handed out a byte. -/
theorem Input.Onward.consumed_lt {i j : Input} (h : i.Onward j) (hlt : j.remaining < i.remaining) :
    i.consumed < j.consumed := by
  have := h.total
  omega

/-- A header takes its nine bytes. -/
theorem Read.consumed_header {p : Profile} {v : Nat} {i j : Input}
    (h : Read.header p i = .ok v j) : j.consumed = i.consumed + headerWidth := by
  obtain ⟨_, i₁, hs, h⟩ := bind_eq_ok h
  obtain ⟨version, i₂, hv, h⟩ := bind_eq_ok h
  have hj : j = i₂ := by
    split at h
    · cases h
      rfl
    · cases h
  obtain ⟨letters, j₁, hletters, hs⟩ := bind_eq_ok hs
  have hi₁ : i₁ = j₁ := by
    split at hs
    · cases hs
      rfl
    · cases hs
  obtain ⟨digits, j₂, hdigits, hv⟩ := bind_eq_ok hv
  have hi₂ : i₂ = j₂ := by
    split at hv
    · cases hv
      rfl
    · cases hv
  have h₁ : j₁.consumed = i.consumed + fixedLetters.length := Read.consumed_bytesInto hletters
  have h₂ : j₂.consumed = i₁.consumed + versionWidth := Read.consumed_bytesInto hdigits
  have hwidth : fixedLetters.length + versionWidth = headerWidth := by decide
  rw [hj, hi₂, h₂, hi₁, h₁, ← hwidth, Nat.add_assoc]

theorem ReadRecord.consumed_header {p : Profile} {v : Nat} {s s' : Intake}
    (h : fromInput (Read.header p) s = .ok v s') :
    s'.input.consumed = s.input.consumed + Read.headerWidth := by
  unfold fromInput at h
  split at h
  · rename_i hheader
    cases h
    exact Read.consumed_header hheader
  · cases h

namespace Session

variable {total : Nat} {s s' : Session}

/-! ### Sessions -/

/-- What a session has spent of a number of bytes: it has read some and can still read no more than
the others. For a header that has been accepted it has read nine bytes, and for every entry at least
one more; before that it has no entries. -/
structure Spends (total : Nat) (s : Session) : Prop where
  total_le : s.bytesRead + s.remaining ≤ total
  opened : s.phase.version? ≠ none → Read.headerWidth + s.entries.size ≤ s.bytesRead
  unopened : s.phase.version? = none → s.entries.size = 0

/-- The entries of a session are paid for with bytes of its source. -/
theorem Spends.size_le (h : Spends total s) : s.entries.size ≤ total - Read.headerWidth := by
  have htotal := h.total_le
  by_cases hv : s.phase.version? = none
  · have := h.unopened hv
    omega
  · have := h.opened hv
    omega

/-- A session that fails has moved on in its source and is otherwise as far as before. -/
theorem Spends.fail (h : Spends total s) {intake : Intake}
    (hi : s.intake.input.Onward intake.input) (e : ReadError) :
    Spends total (({ s with intake := intake } : Session).fail e) := by
  have htotal := h.total_le
  have hmore : s.bytesRead ≤ intake.input.consumed := hi.consumed
  refine ⟨?_, fun hv => ?_, fun hv => ?_⟩
  · simp only [bytesRead, remaining, intake_fail]
    exact Nat.le_trans (Nat.le_of_eq hi.total) htotal
  · rw [version_fail] at hv
    simp only [bytesRead, intake_fail, entries_fail]
    exact Nat.le_trans (h.opened hv) hmore
  · rw [version_fail] at hv
    simp only [entries_fail]
    exact h.unopened hv

theorem Spends.openSnapshot (h : Spends total s) (hp : s.phase = .fresh) :
    Spends total s.openSnapshot.2 := by
  have hend := (Recordwise.input (.header s.profile)).onward s.intake.input s.intake (.refl _)
  cases hr : ReadRecord.fromInput (Read.header s.profile) s.intake with
  | error e intake =>
    rw [hr] at hend
    rw [openSnapshot_of_error hr]
    exact h.fail hend.of_error.2 e
  | ok v intake =>
    rw [hr] at hend
    rw [openSnapshot_of_ok hr]
    have hon := hend.of_ok.2
    have hwidth := ReadRecord.consumed_header hr
    have hnone := h.unopened (by rw [hp]; rfl)
    refine ⟨?_, fun _ => ?_, by rintro ⟨⟩⟩
    · exact Nat.le_trans (Nat.le_of_eq hon.total) h.total_le
    · change Read.headerWidth + s.entries.size ≤ intake.input.consumed
      omega

/-- An entry takes at least a byte. -/
theorem consumed_lt_of_entry {p : Profile} {version : Nat} {i j : Intake} {e : Entry Packed}
    (h : ReadRecord.entry p version i = .ok e j) : i.input.consumed < j.input.consumed := by
  have hend := ReadRecord.entry_onward p version i.input i (.refl _)
  rw [h] at hend
  exact hend.of_ok.2.consumed_lt (ReadRecord.entry_eager p version i e j h)

theorem Spends.readEntry (h : Spends total s) {version : Nat} (hp : s.phase = .ready version) :
    Spends total (s.readEntry version).2 := by
  have hend := ReadRecord.entry_onward s.profile version s.intake.input s.intake (.refl _)
  cases hr : ReadRecord.entry s.profile version s.intake with
  | error e intake =>
    rw [hr] at hend
    rw [readEntry_of_error hr]
    exact h.fail hend.of_error.2 e
  | ok e intake =>
    rw [hr] at hend
    rw [readEntry_of_ok hr]
    have hon := hend.of_ok.2
    have hlt := consumed_lt_of_entry hr
    have hopened := h.opened (by simp [hp, Phase.version?])
    let t : Session := (({ s with intake := intake } : Session).advance version e).deliver e
    have hsize : t.entries.size = s.entries.size + 1 := by simp [t]
    have hintake : t.intake = intake := by simp [t]
    have hversion : t.phase.version? = s.phase.version? :=
      version_advance { s with intake := intake } hp e
    refine ⟨?_, fun _ => ?_, fun hv => ?_⟩
    · change t.bytesRead + t.remaining ≤ total
      unfold bytesRead remaining
      rw [hintake]
      exact Nat.le_trans (Nat.le_of_eq hon.total) h.total_le
    · change Read.headerWidth + t.entries.size ≤ t.bytesRead
      unfold bytesRead at hopened ⊢
      rw [hsize, hintake]
      omega
    · have hnone : s.phase.version? = none := hversion.symm.trans hv
      rw [hp] at hnone
      cases hnone

theorem Spends.next (h : Spends total s) : Spends total s.next.2 :=
  next_invariant (fun _ hp hs => hs.openSnapshot hp) (fun _ _ hp hs => hs.readEntry hp) h

theorem Spends.drain (h : Spends total s) (limit : Option Nat) : Spends total (s.drain limit).2 :=
  drain_invariant (fun _ hs => hs.next) h limit

/-- Closing an input drops the bytes that lie ready and hands out none. -/
theorem remaining_close_le (i : Input) :
    i.close.consumed = i.consumed ∧ i.close.remaining ≤ i.remaining := by
  unfold Input.close
  split
  · exact ⟨rfl, Nat.le_refl _⟩
  · refine ⟨rfl, ?_⟩
    unfold Input.remaining Source.remaining Source.close
    cases i.source.supply <;> simp

theorem Spends.close (h : Spends total s) : Spends total s.close := by
  obtain ⟨hread, hleft⟩ := remaining_close_le s.intake.input
  unfold Session.close
  split
  · exact h
  · refine ⟨?_, fun hv => ?_, h.unopened⟩
    · have htotal := h.total_le
      change s.intake.input.close.consumed + s.intake.input.close.remaining ≤ total
      unfold bytesRead Session.remaining Intake.remaining at htotal
      omega
    · change Read.headerWidth + s.entries.size ≤ s.intake.input.close.consumed
      rw [hread]
      exact h.opened hv

/-- Other entries of the same number cost as much. -/
theorem Spends.withEntries (h : Spends total s) {entries : Array (Entry Packed)}
    (hsize : entries.size = s.entries.size) :
    Spends total { s with entries := entries } where
  total_le := h.total_le
  opened hv := by
    change Read.headerWidth + entries.size ≤ s.bytesRead
    rw [hsize]
    exact h.opened hv
  unopened hv := hsize.trans (h.unopened hv)

theorem Spends.step (h : Spends total s) (op : Step) : Spends total (s.step op).2 := by
  cases op with
  | next => exact h.next
  | demand =>
    have hsnd : (s.step .demand).2 = s.next.2 := demand_snd s
    rw [hsnd]
    exact h.next
  | drain => exact h.drain none
  | close => exact h.close
  | allValues => exact h.withEntries (by simp)
  | metrics | log | closeCalls => exact h
  | ask q => exact h.withEntries (Entry.size_step _ q)

theorem spends_start (p : Profile) (source : Source) :
    Spends source.remaining (start p source) where
  total_le := by simp [bytesRead, remaining, start, Intake.remaining, Input.remaining]
  opened hv := absurd rfl hv
  unopened _ := rfl

theorem spends_run (p : Profile) (source : Source) (ops : List Step) :
    Spends source.remaining ((start p source).run ops) :=
  run_invariant (fun _ op hs => hs.step op) (spends_start p source) ops

end Session

end RedisDump
