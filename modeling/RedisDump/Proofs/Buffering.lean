import RedisDump.Proofs.Delivery
import RedisDump.Proofs.Twins
import RedisDump.Session.Steps

/-!
# Portions of any size

How the bytes of a snapshot are cut into portions cannot be seen from outside. A source may have
them all in memory and be asked for portions of any size for which memory answers, or hand them
out in portions of its own that are not empty (`Source.Delivers`). Over two such sources with the
same bytes every sequence of steps is answered in the same way, with the same phase and number
of bytes read after each step (`transcript_eq_of_delivers`).
-/

namespace RedisDump

/-- Two inputs that hold the same bytes and have handed out as many. -/
def buffering : Comparison Input where
  near i j := ∃ bs n, Input.Holds bs n i ∧ Input.Holds bs n j
  shared _ := True
  cut _ _ := False

theorem buffering_sound : buffering.Sound := by
  refine Comparison.sound_of_holds ?_ ?_ fun _ _ => trivial
  · rintro i j ⟨bs, n, hi, hj⟩
    exact ⟨bs, bs, n, hi, hj⟩
  · rintro needed i j ⟨bs, n, hi, hj⟩
    cases bs with
    | nil =>
      obtain ⟨i', hri, hi'⟩ := Read.next_of_holds_nil hi needed
      obtain ⟨j', hrj, hj'⟩ := Read.next_of_holds_nil hj needed
      rw [hri, hrj]
      exact .error trivial ⟨[], n, hi', hj'⟩
    | cons b bs =>
      obtain ⟨i', hri, hi'⟩ := Read.next_of_holds_cons hi needed
      obtain ⟨j', hrj, hj'⟩ := Read.next_of_holds_cons hj needed
      rw [hri, hrj]
      exact .ok ⟨bs, n + 1, hi', hj'⟩

namespace Session

variable {s t : Session}

/-! ### Single steps -/

/-- Two outcomes of a step that are answered alike and leave twins. -/
def Alike {α : Type} (r r' : α × Session) : Prop :=
  r.1 = r'.1 ∧ Twins buffering r.2 r'.2

theorem next_alike (h : Twins buffering s t) : Alike s.next t.next := by
  have hb := next_beside buffering_sound h
  generalize s.next = r, t.next = r' at hb
  cases hb with
  | same h _ => exact ⟨rfl, h⟩
  | cut h => exact h.elim

theorem drain_alike (h : Twins buffering s t) (limit : Option Nat) :
    Alike (s.drain limit) (t.drain limit) := by
  have hb := drain_beside buffering_sound h limit
  generalize s.drain limit = r, t.drain limit = r' at hb
  cases hb with
  | same h _ => exact ⟨rfl, h⟩
  | cut h _ => exact h.elim

theorem close_twins (h : Twins buffering s t) : Twins buffering s.close t.close := by
  unfold close
  rw [← h.phase]
  cases ho : s.phase.isClosed with
  | true => exact h
  | false =>
    obtain ⟨hi, hj⟩ := buffering_sound.isOpen _ _ (h.intake ho).1
    simp only [Bool.false_eq_true, if_false]
    exact
      { h with
        intake := nofun
        bytesRead := by simp [bytesRead, Input.close, hi, hj]; exact h.bytesRead
        closeCalls := by
          simp [closeCalls, Input.close, Source.close, hi, hj]; exact h.closeCalls
        phase := rfl
        log := by simp only [h.log, h.bytesRead] }

theorem withEntries_twins (h : Twins buffering s t) (entries : Array (Entry Packed)) :
    Twins buffering { s with entries := entries } { t with entries := entries } :=
  { h with entries := rfl }

theorem demand_alike (h : Twins buffering s t) : Alike s.demand t.demand := by
  have hn := next_alike h
  unfold demand
  generalize s.next = r, t.next = r' at hn
  obtain ⟨answer, s'⟩ := r
  obtain ⟨answer', t'⟩ := r'
  obtain ⟨rfl, hs⟩ := hn
  cases answer with
  | error e => exact ⟨rfl, hs⟩
  | ok e => cases e with
    | none => exact ⟨rfl, hs⟩
    | some e => exact ⟨rfl, hs⟩

theorem drainAll_alike (h : Twins buffering s t) : Alike s.drainAll t.drainAll := by
  obtain ⟨ha, hs⟩ := drain_alike h none
  refine ⟨?_, hs⟩
  simp only [drainAll, h.entries, ha, hs.entries]

/-- A step of twins is answered alike and leaves twins. -/
theorem step_alike (h : Twins buffering s t) (op : Step) : Alike (s.step op) (t.step op) := by
  cases op with
  | next =>
    obtain ⟨ha, hs⟩ := next_alike h
    exact ⟨by simp only [step, ha], hs⟩
  | demand => exact demand_alike h
  | drain =>
    obtain ⟨ha, hs⟩ := drainAll_alike h
    exact ⟨by simp only [step, ha], hs⟩
  | close => exact ⟨rfl, close_twins h⟩
  | allValues =>
    refine ⟨by simp only [step, forceAll, h.entries], ?_⟩
    simp only [step, forceAll, h.entries]
    exact withEntries_twins h _
  | metrics => exact ⟨by simp only [step, metrics, h.entries, h.tallies], h⟩
  | log => exact ⟨by simp only [step, h.log], h⟩
  | closeCalls => exact ⟨by simp only [step, h.closeCalls], h⟩
  | ask q =>
    refine ⟨by simp only [step, ask, h.entries], ?_⟩
    simp only [step, ask, h.entries]
    exact withEntries_twins h _

/-! ### Runs -/

/-- What is seen of a session after a step. -/
structure Report where
  answer : Except StepError Answer
  phase : Phase
  bytesRead : Nat

/-- What is seen of a session after each of a sequence of steps. -/
def transcript (s : Session) : List Step → List Report
  | [] => []
  | op :: ops =>
    let (answer, s) := s.step op
    { answer, phase := s.phase, bytesRead := s.bytesRead } :: transcript s ops

theorem transcript_twins (h : Twins buffering s t) (ops : List Step) :
    s.transcript ops = t.transcript ops := by
  induction ops generalizing s t with
  | nil => rfl
  | cons op ops ih =>
    obtain ⟨ha, hs⟩ := step_alike h op
    simp only [transcript, ha, hs.phase, hs.bytesRead, ih hs]

/-- **How a snapshot is cut into portions is not seen.** -/
theorem transcript_eq_of_delivers (p : Profile) {data : Bytes} {m n : Nat} (hm : 0 < m)
    (hn : 0 < n) {a b : Source} (ha : a.Delivers data m) (hb : b.Delivers data n)
    (ops : List Step) :
    (start (p.withBufferSize m hm) a).transcript ops =
      (start (p.withBufferSize n hn) b).transcript ops := by
  have hi := ha.holds hm
  have hj := hb.holds hn
  have hpq : (p.withBufferSize m hm).ReadsLike (p.withBufferSize n hn) := ⟨rfl, fun _ => rfl⟩
  exact transcript_twins (twins_start buffering_sound hpq ⟨data, 0, hi, hj⟩) ops

/-- A selection of database 3. -/
def selectDbSnapshot : Bytes :=
  [0x52, 0x45, 0x44, 0x49, 0x53, 0x30, 0x30, 0x31, 0x31, 0xFE, 0x03]

/-- Asked for in two portions and handed out in three. -/
theorem transcript_eq_selectDbSnapshot :
    (start (Profile.standard.withBufferSize 7 (by decide))
        (.ofBytes selectDbSnapshot)).transcript [.next, .drain, .close, .next] =
      (start (Profile.standard.withBufferSize 1 (by decide))
        (.ofPortions ([[0x52], [0x45, 0x44, 0x49, 0x53, 0x30, 0x30, 0x31, 0x31, 0xFE],
          [0x03]].map some))).transcript [.next, .drain, .close, .next] := by
  have ha : (Source.ofBytes selectDbSnapshot).Delivers selectDbSnapshot 7 :=
    .contents (by decide)
  have hb : (Source.ofPortions ([[0x52], [0x45, 0x44, 0x49, 0x53, 0x30, 0x30, 0x31, 0x31, 0xFE],
      [0x03]].map some)).Delivers selectDbSnapshot 1 := .portions (by decide) rfl
  exact transcript_eq_of_delivers .standard (by decide) (by decide) ha hb _

/-- Memory does not answer a request for more bytes than a machine word can count, where portions
do come. -/
theorem transcript_ne_of_not_fits : ¬ ∀ (p : Profile) (data : Bytes) (portions : List Bytes)
    (ops : List Step), (∀ q ∈ portions, q ≠ []) → portions.flatten = data →
      (start p (.ofBytes data)).transcript ops =
        (start p (.ofPortions (portions.map some))).transcript ops := by
  intro h
  let p := Profile.standard.withBufferSize Profile.tooWideSize (by decide)
  have hr := h p [0x52] [[0x52]] [.next] (by decide) rfl
  have hm := next_start_of_not_fits (p := p) (by decide) [0x52]
  have hh : ReadRecord.fromInput (Read.header p)
      (start p (.ofPortions [some [0x52]])).intake = .error (.truncated 1 4)
        { input :=
            { source := .ofPortions [], bufferSize := Profile.tooWideSize, consumed := 1 } } := rfl
  have hc := next_of_fresh_error rfl
    (openSnapshot_of_error (s := start p (.ofPortions [some [0x52]])) hh)
  simp only [transcript, step, hm, List.map_cons, List.map_nil, hc] at hr
  cases (List.cons.inj hr).1

end Session

end RedisDump
