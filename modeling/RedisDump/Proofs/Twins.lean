import RedisDump.Proofs.Lockstep
import RedisDump.Session

/-!
# Sessions side by side

Two sessions are *twins* when they differ only in what a comparison of inputs leaves open: the
inputs themselves, and the name and buffer size of the profiles. Twins answer alike, entry by
entry and over a whole drain, unless the first one is cut short. What has been delivered up to
then the second one delivers too (`drain_beside`).
-/

namespace RedisDump

/-- Two profiles with which snapshots are read in the same way. -/
structure Profile.ReadsLike (p q : Profile) : Prop where
  header : Read.header q = Read.header p
  record : ∀ version, ReadRecord.record q version = ReadRecord.record p version

theorem Profile.ReadsLike.refl (p : Profile) : p.ReadsLike p :=
  ⟨rfl, fun _ => rfl⟩

namespace Session

variable {c : Comparison Input} {s t : Session}

/-- Two sessions that agree in all but their inputs, which face each other while the sessions are
open. -/
structure Twins (c : Comparison Input) (s t : Session) : Prop where
  profile : s.profile.ReadsLike t.profile
  intake : s.phase.isClosed = false → c.onIntake.near s.intake t.intake
  bytesRead : s.bytesRead = t.bytesRead
  closeCalls : s.closeCalls = t.closeCalls
  phase : s.phase = t.phase
  counted : s.counted = t.counted
  entries : s.entries = t.entries
  tallies : s.tallies = t.tallies
  log : s.log = t.log

/-- Fresh sessions over inputs that face each other are twins. -/
theorem twins_start (hc : c.Sound) {p q : Profile} (hpq : p.ReadsLike q) {source source' : Source}
    (h : c.near { source, bufferSize := p.bufferSize }
      { source := source', bufferSize := q.bufferSize }) :
    Twins c (start p source) (start q source') where
  profile := hpq
  intake := fun _ => ⟨h, rfl⟩
  bytesRead := hc.consumed _ _ h
  closeCalls := hc.closeCalls _ _ h
  phase := rfl
  counted := rfl
  entries := rfl
  tallies := rfl
  log := rfl

namespace Twins

/-- Twins remain twins over inputs that face each other. -/
theorem withIntake (hc : c.Sound) (h : Twins c s t) {i j : Intake} (hij : c.onIntake.near i j) :
    Twins c { s with intake := i } { t with intake := j } :=
  { h with
    intake := fun _ => hij
    bytesRead := hc.consumed _ _ hij.1
    closeCalls := hc.closeCalls _ _ hij.1 }

theorem fail (h : Twins c s t) (ho : s.phase.isClosed = false) (e : ReadError) :
    Twins c (s.fail e) (t.fail e) := by
  unfold Session.fail
  split
  · exact { h with intake := fun _ => h.intake ho, phase := by rw [h.phase] }
  · exact h

theorem accept (h : Twins c s t) (ho : s.phase.isClosed = false) (version : Nat) :
    Twins c (s.accept version) (t.accept version) :=
  { h with
    intake := fun _ => h.intake ho
    phase := rfl
    tallies := by simp only [Session.accept, h.tallies]
    log := by simp only [Session.accept, h.log] }

theorem advance (h : Twins c s t) (ho : s.phase.isClosed = false) (version : Nat)
    (e : Entry Packed) : Twins c (s.advance version e) (t.advance version e) := by
  cases e with
  | eof checksum =>
    exact
      { h with
        intake := fun _ => h.intake ho
        phase := rfl
        log := by simp only [Session.advance, h.log, h.bytesRead] }
  | selectDb | resizeDb | aux | keyValue => exact h

theorem deliver (h : Twins c s t) (e : Entry Packed) : Twins c (s.deliver e) (t.deliver e) :=
  { h with
    counted := h.bytesRead
    entries := by simp only [Session.deliver, h.entries]
    tallies := by simp only [Session.deliver, h.tallies, h.bytesRead, h.counted] }

end Twins

/-- The answers of two reads, with the sessions after them: the same of twins, unless the first
read is cut short. -/
inductive Beside (c : Comparison Input) {α : Type} :
    Except Error α × Session → Except Error α × Session → Prop where
  | same {answer : Except Error α} {s t : Session} :
    Twins c s t → (∀ e, answer = .error (.reading e) → c.shared e) →
      Beside c (answer, s) (answer, t)
  | cut {e : ReadError} {s : Session} {r : Except Error α × Session} :
    c.cut e s.intake.input → Beside c (.error (.reading e), s) r

theorem openSnapshot_beside (hc : c.Sound) (h : Twins c s t) (ho : s.phase.isClosed = false) :
    Beside c s.openSnapshot t.openSnapshot := by
  have hr : c.onIntake.Follows (ReadRecord.fromInput (Read.header s.profile) s.intake)
      (ReadRecord.fromInput (Read.header t.profile) t.intake) := by
    rw [h.profile.header]
    exact (Recordwise.input (Bytewise.header _)).follows hc.toStepwise (h.intake ho)
  unfold openSnapshot
  generalize ReadRecord.fromInput (Read.header s.profile) s.intake = x,
    ReadRecord.fromInput (Read.header t.profile) t.intake = y at hr
  cases hr with
  | ok hij => exact .same ((h.withIntake hc hij).accept ho _) fun _ he => nomatch he
  | error he hij =>
    refine .same ((h.withIntake hc hij).fail ho _) fun _ he' => ?_
    cases he'
    exact he
  | cut hcut => exact .cut (by rwa [intake_fail])

theorem readEntry_beside (hc : c.Sound) (h : Twins c s t) (ho : s.phase.isClosed = false)
    (version : Nat) : Beside c (s.readEntry version) (t.readEntry version) := by
  have hr := ReadRecord.entry_follows hc.toStepwise (h.profile.record version) (h.intake ho)
  unfold readEntry
  generalize ReadRecord.entry s.profile version s.intake = x,
    ReadRecord.entry t.profile version t.intake = y at hr
  cases hr with
  | ok hij =>
    exact .same (((h.withIntake hc hij).advance ho version _).deliver _) fun _ he => nomatch he
  | error he hij =>
    refine .same ((h.withIntake hc hij).fail ho _) fun _ he' => ?_
    cases he'
    exact he
  | cut hcut => exact .cut (by rwa [intake_fail])

/-- Twins return the same, unless the first one is cut short. -/
theorem next_beside (hc : c.Sound) (h : Twins c s t) : Beside c s.next t.next := by
  unfold next
  rw [← h.phase]
  split
  · exact .same h fun _ he => nomatch he
  · exact .same h fun _ he => nomatch he
  · exact .same h fun _ he => nomatch he
  · rename_i version hp
    exact readEntry_beside hc h (by rw [hp]; rfl) version
  · rename_i hp
    have hb := openSnapshot_beside hc h (by rw [hp]; rfl)
    generalize hs : s.openSnapshot = x, t.openSnapshot = y at hb
    cases hb with
    | @same answer s' t' h' he =>
      cases answer with
      | ok version => exact readEntry_beside hc h' (by rw [phase_of_openSnapshot hs]; rfl) version
      | error e =>
        refine .same h' fun e' hr => he e' ?_
        cases hr
        rfl
    | cut hcut => exact .cut hcut

/-- What `drain_beside` says of two drains. -/
inductive DrainedBeside (c : Comparison Input) : Ending × Session → Ending × Session → Prop where
  | same {ending : Ending} {s t : Session} :
    Twins c s t → (∀ e, ending = .failed (.reading e) → c.shared e) →
      DrainedBeside c (ending, s) (ending, t)
  | cut {e : ReadError} {s : Session} {r : Ending × Session} :
    c.cut e s.intake.input → s.entries.toList <+: r.2.entries.toList →
      DrainedBeside c (.failed (.reading e), s) r

/-- **Twins are drained alike.** Either both drains end in the same way and leave twins, or the
first one is cut short, and then the second one delivers at least as much. -/
theorem drain_beside (hc : c.Sound) (h : Twins c s t) (limit : Option Nat) :
    DrainedBeside c (s.drain limit) (t.drain limit) := by
  fun_induction drain s limit generalizing t with
  | case1 s =>
    rw [drain_zero]
    exact .same h (by rintro _ ⟨⟩)
  | case2 s limit hl e s' hs ih =>
    have hb := next_beside hc h
    generalize ht : t.next = y at hb
    rw [hs] at hb
    cases hb with
    | same h' _ =>
      rw [drain_of_some hl ht]
      exact ih h'
  | case3 s limit hl s' hs =>
    have hb := next_beside hc h
    generalize ht : t.next = y at hb
    rw [hs] at hb
    cases hb with
    | same h' _ =>
      rw [drain_of_none hl ht]
      exact .same h' (by rintro _ ⟨⟩)
  | case4 s limit hl e s' hs =>
    have hb := next_beside hc h
    have hn := entries_next s
    generalize ht : t.next = y at hb
    rw [hs] at hb hn
    cases hb with
    | same h' he =>
      rw [drain_of_error hl ht]
      refine .same h' fun e' hr => he e' ?_
      cases hr
      rfl
    | cut hcut =>
      refine .cut hcut ?_
      rw [hn, delivered, List.append_nil, h.entries]
      exact entries_prefix_drain t limit

end Session

end RedisDump
