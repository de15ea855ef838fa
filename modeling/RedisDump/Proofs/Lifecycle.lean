import Mathlib.Logic.Relation
import RedisDump.Proofs.Finality
import RedisDump.Proofs.Inquiry
import RedisDump.Proofs.Outcome.Sessions

/-!
# The life of a session

A session goes from fresh through ready to exhausted, may fail before that, and may be closed at
any time (`Phase.Moves`). One read can make two of these moves, or fail between them; all that it
can do is listed once (`Turn`). From that it follows for a read, and for any run of reads, when the
end is returned, when the session fails, when its version becomes known, and that a session which
is over rests (`Stretch`). The statements about whole runs are put together in `lifecycle_run`.
-/

namespace RedisDump

/-- Whether an entry is the end of a snapshot. -/
def Entry.isEnd {δ : Type} : Entry δ → Bool
  | .eof _ => true
  | .selectDb _ | .resizeDb .. | .aux .. | .keyValue .. => false

/-! ### Phases -/

namespace Phase

/-- Whether the end of the snapshot has been read. -/
def isExhausted : Phase → Bool
  | exhausted _ => true
  | fresh | ready _ | failed _ | closed _ => false

/-- Whether reading has failed for good. -/
def isFailed : Phase → Bool
  | failed _ => true
  | fresh | ready _ | exhausted _ | closed _ => false

/-- Whether nothing more is read. -/
def isOver : Phase → Bool
  | exhausted _ | failed _ | closed _ => true
  | fresh | ready _ => false

/-- The moves from one phase to another. -/
inductive Moves (p : Profile) : Phase → Phase → Prop where
  /-- A header is accepted. -/
  | accept {v : Nat} : p.minVersion ≤ v → v ≤ p.maxVersion → Moves p .fresh (.ready v)
  /-- The end of the snapshot is read. -/
  | finish {v : Nat} : Moves p (.ready v) (.exhausted v)
  /-- The header is faulty. -/
  | failFresh : Moves p .fresh (.failed none)
  /-- A record is faulty. -/
  | failReady {v : Nat} : Moves p (.ready v) (.failed (some v))
  /-- The session is closed. -/
  | close {a : Phase} : a.isClosed = false → Moves p a (.closed a.version?)

/-- The phases that can follow on one another, in any number of moves. -/
abbrev Reaches (p : Profile) : Phase → Phase → Prop :=
  Relation.ReflTransGen (Moves p)

variable {p : Profile} {a b : Phase} {v : Nat}

theorem Moves.version (h : Moves p a b) (hv : a.version? = some v) : b.version? = some v := by
  cases h with
  | accept => cases hv
  | failFresh => cases hv
  | finish => exact hv
  | failReady => exact hv
  | close => exact hv

/-- The version of a snapshot never changes. -/
theorem Reaches.version (h : Reaches p a b) (hv : a.version? = some v) :
    b.version? = some v := by
  induction h with
  | refl => exact hv
  | tail _ hm ih => exact hm.version ih

theorem isOver_of_isExhausted (h : a.isExhausted = true) : a.isOver = true := by
  cases a with
  | exhausted => rfl
  | fresh | ready | failed | closed => cases h

theorem isOver_of_isFailed (h : a.isFailed = true) : a.isOver = true := by
  cases a with
  | failed => rfl
  | fresh | ready | exhausted | closed => cases h

theorem isOver_of_isClosed (h : a.isClosed = true) : a.isOver = true := by
  cases a with
  | closed => rfl
  | fresh | ready | exhausted | failed => cases h

end Phase

/-! ### The source of an open session -/

theorem Source.closeCalls_read (s : Source) (n : Int) :
    (s.read n).2.closeCalls = s.closeCalls := by
  unfold Source.read
  split
  · split
    · rfl
    · split
      · rfl
      · split <;> rfl
  · rfl
  · rfl
  · rfl

/-- An input that is not closed, and whose source has been closed `n` times. -/
structure Input.OpenAfter (n : Nat) (i : Input) : Prop where
  isOpen : i.closed = false
  closeCalls : i.source.closeCalls = n

/-- Reading closes nothing. -/
theorem Read.rules_openAfter (n : Nat) (p : Profile) :
    Rules (Input.OpenAfter n) Anything p where
  next := by
    rintro needed i ⟨ho, hn⟩
    have hread := Source.closeCalls_read i.source i.bufferSize
    unfold Read.next
    split
    · exact .ok trivial ⟨ho, hn⟩
    · generalize i.source.read i.bufferSize = r at hread
      obtain ⟨answer, source⟩ := r
      rcases answer with e | _ | ⟨b, bs⟩
      · exact .error trivial ⟨ho, hread.trans hn⟩
      · exact .error trivial ⟨ho, hread.trans hn⟩
      · exact .ok trivial ⟨ho, hread.trans hn⟩
  fault := fun _ _ _ => trivial
  payload := fun _ _ _ _ _ => trivial
  limits := .inr trivial

namespace Session

variable {s t u : Session}

/-! ### One read -/

/-- The header comes next, and declares a version that is accepted. -/
def Accepts (s : Session) (v : Nat) : Prop :=
  s.phase = .fresh ∧ ∃ i, Read.header s.profile s.intake.input = .ok v i

theorem Accepts.bounds {v : Nat} (h : s.Accepts v) :
    s.profile.minVersion ≤ v ∧ v ≤ s.profile.maxVersion := by
  obtain ⟨-, i, hi⟩ := h
  have hr := (Read.Rules.anything s.profile).header s.profile s.intake.input trivial
  rw [hi] at hr
  exact hr.of_ok.1

theorem Accepts.unique {v w : Nat} (h : s.Accepts v) (h' : s.Accepts w) : w = v := by
  obtain ⟨-, i, hi⟩ := h
  obtain ⟨-, j, hj⟩ := h'
  rw [hi] at hj
  cases hj
  rfl

/-- A record of a snapshot of version `v` comes next, at once or behind the header. -/
def Opens (s : Session) (v : Nat) : Prop :=
  s.phase = .ready v ∨ s.Accepts v

/-- All that a read can do: what it returns, and the session that it leaves. -/
inductive Turn (s : Session) : Except Error (Option (Entry Packed)) → Session → Prop where
  /-- A closed session refuses to read. -/
  | closed {version? : Option Nat} : s.phase = .closed version? → Turn s (.error .closed) s
  /-- A failed session refuses to read. -/
  | failed {version? : Option Nat} : s.phase = .failed version? → Turn s (.error .failed) s
  /-- After the end there is nothing. -/
  | exhausted {v : Nat} : s.phase = .exhausted v → Turn s (.ok none) s
  /-- The header is not accepted. -/
  | noHeader {e : ReadError} {t : Session} : s.phase = .fresh → (∀ v, ¬ s.Accepts v) →
    t.phase = (if e.isFault then .failed none else .fresh) → Turn s (.error (.reading e)) t
  /-- There is no entry behind the accepted header or the last entry. -/
  | noEntry {v : Nat} {e : ReadError} {t : Session} : s.Opens v →
    t.phase = (if e.isFault then .failed (some v) else .ready v) → Turn s (.error (.reading e)) t
  /-- An entry is read. -/
  | entry {v : Nat} {e : Entry Packed} {t : Session} : s.Opens v →
    t.phase = (if e.isEnd then .exhausted v else .ready v) → Turn s (.ok (some e)) t

theorem phase_fail (s : Session) (e : ReadError) :
    (s.fail e).phase = if e.isFault then .failed s.phase.version? else s.phase := by
  unfold fail
  split <;> rfl

theorem readEntry_turn {v : Nat} (hs : s.Opens v) (ht : t.phase = .ready v) :
    Turn s (t.readEntry v).1 (t.readEntry v).2 := by
  cases hr : ReadRecord.entry t.profile v t.intake with
  | ok e intake =>
    rw [readEntry_of_ok hr]
    refine .entry hs ?_
    cases e with
    | eof checksum => rfl
    | selectDb | resizeDb | aux | keyValue => exact ht
  | error e intake =>
    rw [readEntry_of_error hr]
    refine .noEntry hs ?_
    simp only [phase_fail, ht, Phase.version?]

theorem next_turn (s : Session) : Turn s s.next.1 s.next.2 := by
  cases hp : s.phase with
  | closed version? =>
    rw [next_of_closed hp]
    exact .closed hp
  | failed version? =>
    rw [next_of_failed hp]
    exact .failed hp
  | exhausted v =>
    rw [next_of_exhausted hp]
    exact .exhausted hp
  | ready v =>
    rw [next_of_ready hp]
    exact readEntry_turn (.inl hp) hp
  | fresh =>
    cases hh : Read.header s.profile s.intake.input with
    | ok v i =>
      have hf : ReadRecord.fromInput (Read.header s.profile) s.intake =
          .ok v { s.intake with input := i } := by simp only [ReadRecord.fromInput, hh]
      rw [next_of_fresh hp (openSnapshot_of_ok hf)]
      exact readEntry_turn (.inr ⟨hp, i, hh⟩) rfl
    | error e i =>
      have hf : ReadRecord.fromInput (Read.header s.profile) s.intake =
          .error e { s.intake with input := i } := by simp only [ReadRecord.fromInput, hh]
      rw [next_of_fresh_error hp (openSnapshot_of_error hf)]
      refine .noHeader hp ?_ ?_
      · rintro v ⟨-, j, hj⟩
        rw [hh] at hj
        cases hj
      · simp only [phase_fail, hp, Phase.version?]

/-! ### Any number of reads -/

/-- What can be said of a stretch of reading that starts at `s`, returns the entries `got`, ends in
a failure or not, and leaves `t`. -/
structure Stretch (s : Session) (got : List (Entry Packed)) (failure? : Option Error)
    (t : Session) : Prop where
  profile : t.profile = s.profile
  /-- The phase goes its way. -/
  reaches : Phase.Reaches s.profile s.phase t.phase
  /-- Reading closes nothing. -/
  isClosed : t.phase.isClosed = s.phase.isClosed
  /-- The end is returned exactly when the session becomes exhausted. -/
  ends : (∃ e ∈ got, e.isEnd = true) ↔
    s.phase.isExhausted = false ∧ t.phase.isExhausted = true
  /-- The end is returned once at most. -/
  single : got.countP Entry.isEnd ≤ 1
  /-- A fault of the snapshot is reported exactly when the session becomes failed. -/
  fails : (∃ e, failure? = some (.reading e) ∧ e.isFault = true) ↔
    s.phase.isFailed = false ∧ t.phase.isFailed = true
  /-- A session that is over returns nothing and keeps all but the state of its entries. -/
  rests : s.phase.isOver = true → Abreast s t ∧ got = []

/-- The failure that a read returns. -/
def refusal? : Except Error (Option (Entry Packed)) → Option Error
  | .error e => some e
  | .ok _ => none

theorem Opens.reaches {v : Nat} (h : s.Opens v) :
    Phase.Reaches s.profile s.phase (.ready v) := by
  rcases h with hp | ha
  · rw [hp]
  · rw [ha.1]
    obtain ⟨hmin, hmax⟩ := ha.bounds
    exact .single (.accept hmin hmax)

theorem Opens.isOver {v : Nat} (h : s.Opens v) : s.phase.isOver = false := by
  rcases h with hp | ⟨hp, -⟩
  · rw [hp]
    rfl
  · rw [hp]
    rfl

/-- A stretch that leaves the phase and returns nothing. -/
theorem stretch_of_abreast {failure? : Option Error} (h : Abreast s t)
    (hf : ∀ e, failure? = some (.reading e) → e.isFault = false) :
    Stretch s [] failure? t := by
  obtain ⟨entries, rfl⟩ := h
  refine ⟨rfl, .refl, rfl, ?_, Nat.zero_le _, ?_, fun _ => ⟨⟨entries, rfl⟩, rfl⟩⟩
  · simp
  · constructor
    · rintro ⟨e, he, hfault⟩
      rw [hf e he] at hfault
      cases hfault
    · rintro ⟨hn, hy⟩
      rw [hn] at hy
      cases hy

/-- A stretch from a session that is not over. -/
theorem stretch_of_not_isOver {got : List (Entry Packed)} {failure? : Option Error}
    (ho : s.phase.isOver = false) (hp : t.profile = s.profile)
    (hr : Phase.Reaches s.profile s.phase t.phase) (hc : t.phase.isClosed = false)
    (he : (∃ e ∈ got, e.isEnd = true) ↔ t.phase.isExhausted = true)
    (hn : got.countP Entry.isEnd ≤ 1)
    (hf : (∃ e, failure? = some (.reading e) ∧ e.isFault = true) ↔ t.phase.isFailed = true) :
    Stretch s got failure? t := by
  have hs : s.phase.isExhausted = false ∧ s.phase.isFailed = false ∧ s.phase.isClosed = false := by
    generalize s.phase = a at ho
    cases a with
    | fresh => exact ⟨rfl, rfl, rfl⟩
    | ready => exact ⟨rfl, rfl, rfl⟩
    | exhausted | failed | closed => cases ho
  obtain ⟨hx, hfailed, hclosed⟩ := hs
  refine ⟨hp, hr, hc.trans hclosed.symm, ?_, hn, ?_, fun h => ?_⟩
  · rw [he, hx]
    simp
  · rw [hf, hfailed]
    simp
  · rw [ho] at h
    cases h

/-- A read that fails before an entry, with version `version?` known by then. -/
theorem stretch_of_refusal {e : ReadError} {a : Phase} (ho : s.phase.isOver = false)
    (hp : t.profile = s.profile) (ha : Phase.Reaches s.profile s.phase a)
    (hfail : Phase.Moves s.profile a (.failed a.version?)) (hover : a.isOver = false)
    (ht : t.phase = if e.isFault then .failed a.version? else a) :
    Stretch s [] (some (.reading e)) t := by
  cases hfault : e.isFault with
  | false =>
    rw [hfault, if_neg Bool.false_ne_true] at ht
    refine stretch_of_not_isOver ho hp (ht ▸ ha) ?_ ?_ (Nat.zero_le _) ?_
    all_goals
      rw [ht]
      cases a <;> simp_all [Phase.isClosed, Phase.isExhausted, Phase.isFailed, Phase.isOver]
  | true =>
    rw [hfault, if_pos rfl] at ht
    refine stretch_of_not_isOver ho hp (ht ▸ ha.tail hfail) ?_ ?_ (Nat.zero_le _) ?_
    all_goals
      rw [ht]
      simp [Phase.isClosed, Phase.isExhausted, Phase.isFailed, hfault]

theorem Turn.stretch {answer : Except Error (Option (Entry Packed))} (h : Turn s answer t)
    (hp : t.profile = s.profile) : Stretch s (delivered answer) (refusal? answer) t := by
  cases h with
  | closed => exact stretch_of_abreast (.refl s) (by rintro e ⟨⟩)
  | failed => exact stretch_of_abreast (.refl s) (by rintro e ⟨⟩)
  | exhausted => exact stretch_of_abreast (.refl s) (by rintro e ⟨⟩)
  | noHeader hs _ ht =>
    exact stretch_of_refusal (a := .fresh) (by rw [hs]; rfl) hp (hs ▸ .refl) .failFresh rfl ht
  | noEntry hs ht => exact stretch_of_refusal hs.isOver hp hs.reaches .failReady rfl ht
  | @entry v e _ hs ht =>
    cases he : e.isEnd with
    | false =>
      rw [he, if_neg Bool.false_ne_true] at ht
      refine stretch_of_not_isOver hs.isOver hp (ht ▸ hs.reaches) ?_ ?_ ?_ ?_
      all_goals
        simp [ht, delivered, refusal?, Phase.isClosed, Phase.isExhausted, Phase.isFailed, he]
    | true =>
      rw [he, if_pos rfl] at ht
      refine stretch_of_not_isOver hs.isOver hp (ht ▸ hs.reaches.tail .finish) ?_ ?_ ?_ ?_
      all_goals
        simp [ht, delivered, refusal?, Phase.isClosed, Phase.isExhausted, Phase.isFailed, he]

theorem profile_fail (s : Session) (e : ReadError) : (s.fail e).profile = s.profile := by
  unfold fail
  split <;> rfl

theorem profile_openSnapshot (s : Session) : s.openSnapshot.2.profile = s.profile := by
  unfold openSnapshot
  split
  · rfl
  · rw [profile_fail]

theorem profile_readEntry (s : Session) (version : Nat) :
    (s.readEntry version).2.profile = s.profile := by
  unfold readEntry
  split
  · rename_i e _ _
    cases e <;> rfl
  · rw [profile_fail]

theorem profile_next (s : Session) : s.next.2.profile = s.profile :=
  next_invariant (P := fun t => t.profile = s.profile)
    (fun t _ ht => (profile_openSnapshot t).trans ht)
    (fun t version _ ht => (profile_readEntry t version).trans ht) rfl

theorem next_stretch (s : Session) : Stretch s (delivered s.next.1) (refusal? s.next.1) s.next.2 :=
  s.next_turn.stretch (profile_next s)

theorem Abreast.phase (h : Abreast s t) : t.phase = s.phase := by
  obtain ⟨entries, rfl⟩ := h
  rfl

namespace Stretch

variable {got got' : List (Entry Packed)} {failure? : Option Error}

theorem isExhausted (h : Stretch s got failure? t) (hs : s.phase.isExhausted = true) :
    t.phase.isExhausted = true := by
  rw [(h.rests (Phase.isOver_of_isExhausted hs)).1.phase]
  exact hs

theorem isFailed (h : Stretch s got failure? t) (hs : s.phase.isFailed = true) :
    t.phase.isFailed = true := by
  rw [(h.rests (Phase.isOver_of_isFailed hs)).1.phase]
  exact hs

/-- Two stretches, one after the other, are one stretch. -/
theorem trans (h : Stretch s got none t) (h' : Stretch t got' failure? u) :
    Stretch s (got ++ got') failure? u where
  profile := h'.profile.trans h.profile
  reaches := h.reaches.trans (h.profile ▸ h'.reaches)
  isClosed := h'.isClosed.trans h.isClosed
  ends := by
    have hst := h.isExhausted
    have htu := h'.isExhausted
    simp only [List.mem_append, or_and_right, exists_or, h.ends, h'.ends]
    generalize s.phase.isExhausted = a, t.phase.isExhausted = b, u.phase.isExhausted = c at hst htu
    revert hst htu
    revert a b c
    decide
  single := by
    by_cases he : ∃ e ∈ got, e.isEnd = true
    · have ht := Phase.isOver_of_isExhausted (h.ends.mp he).2
      rw [(h'.rests ht).2, List.append_nil]
      exact h.single
    · have hz : got.countP Entry.isEnd = 0 :=
        List.countP_eq_zero.mpr fun e hmem hend => he ⟨e, hmem, hend⟩
      rw [List.countP_append, hz, Nat.zero_add]
      exact h'.single
  fails := by
    have hst := h.isFailed
    have hn : ¬ (s.phase.isFailed = false ∧ t.phase.isFailed = true) := by
      rw [← h.fails]
      simp
    rw [h'.fails]
    generalize s.phase.isFailed = a, t.phase.isFailed = b, u.phase.isFailed = c at hst hn
    revert hst hn
    revert a b c
    decide
  rests := by
    intro ho
    obtain ⟨hst, rfl⟩ := h.rests ho
    obtain ⟨htu, rfl⟩ := h'.rests (by rwa [hst.phase])
    exact ⟨hst.trans htu, rfl⟩

end Stretch

/-- A run of reads is a stretch over the entries that it delivers. -/
theorem drain_stretch (s : Session) (limit : Option Nat) :
    ∃ got, (s.drain limit).2.entries.toList = s.entries.toList ++ got ∧
      Stretch s got (s.drain limit).1.failure? (s.drain limit).2 := by
  fun_induction drain s limit with
  | case1 s =>
    exact ⟨[], by simp, stretch_of_abreast (.refl s) (by rintro e ⟨⟩)⟩
  | case2 s limit _ e s' hs ih =>
    have hn := next_stretch s
    have he := entries_next s
    rw [hs] at hn he
    obtain ⟨got, hgot, hd⟩ := ih
    refine ⟨e :: got, ?_, hn.trans hd⟩
    rw [hgot, he, delivered, List.append_assoc, List.singleton_append]
  | case3 s limit _ s' hs =>
    have hn := next_stretch s
    have he := entries_next s
    rw [hs] at hn he
    exact ⟨[], he, hn⟩
  | case4 s limit _ e s' hs =>
    have hn := next_stretch s
    have he := entries_next s
    rw [hs] at hn he
    exact ⟨[], he, hn⟩

/-! ### The version -/

/-- A read makes the version known when the header comes next. -/
theorem version_next_iff (s : Session) (v : Nat) :
    s.next.2.phase.version? = some v ↔ s.phase.version? = some v ∨ s.Accepts v := by
  have hnot : s.phase ≠ .fresh → ¬ s.Accepts v := fun hp ha => hp ha.1
  have hturn := s.next_turn
  generalize s.next.1 = answer, s.next.2 = t at hturn
  have hopens : ∀ w, s.Opens w → (t.phase.version? = some w) →
      (t.phase.version? = some v ↔ s.phase.version? = some v ∨ s.Accepts v) := by
    intro w hw ht
    rw [ht]
    rcases hw with hp | ha
    · have hna := hnot (by simp [hp])
      rw [hp]
      simp [Phase.version?, hna]
    · rw [ha.1]
      constructor
      · rintro ⟨⟩
        exact .inr ha
      · rintro (hv | hv)
        · cases hv
        · rw [ha.unique hv]
  cases hturn with
  | closed hp =>
    have hna := hnot (by simp [hp])
    simp [hna]
  | failed hp =>
    have hna := hnot (by simp [hp])
    simp [hna]
  | exhausted hp =>
    have hna := hnot (by simp [hp])
    simp [hna]
  | @noHeader e _ hp hna ht =>
    rw [hp, ht]
    cases e.isFault <;> simp [Phase.version?, hna v]
  | @noEntry w e _ hs ht =>
    refine hopens w hs ?_
    rw [ht]
    cases e.isFault <;> rfl
  | @entry w e _ hs ht =>
    refine hopens w hs ?_
    rw [ht]
    cases e.isEnd <;> rfl

/-- A run of reads makes the version known when its first read does. -/
theorem version_drain (s : Session) :
    (s.drain none).2.phase.version? = s.next.2.phase.version? := by
  have hl : (none : Option Nat) ≠ some 0 := nofun
  have hturn := s.next_turn
  generalize hs : s.next = r at hturn
  obtain ⟨answer, s'⟩ := r
  rcases answer with e | _ | e
  · rw [drain_of_error hl hs]
  · rw [drain_of_none hl hs]
  · rw [drain_of_some hl hs]
    cases hturn with
    | @entry v _ _ _ ht =>
      have hv : s'.phase.version? = some v := by
        rw [ht]
        cases e.isEnd <;> rfl
      obtain ⟨got, -, hd⟩ := drain_stretch s' (Option.map Nat.pred none)
      rw [hd.reaches.version hv, hv]

/-! ### Steps -/

/-- Whether a step reads entries. -/
def Step.isRead : Step → Bool
  | .next | .demand | .drain => true
  | .close | .allValues | .metrics | .log | .closeCalls | .ask _ => false

/-- The entries that are read by a step with the given answer. -/
def returned : Except StepError Answer → List (Entry Packed)
  | .ok (.entry (some e)) => [e]
  | .ok (.entries got _) => got
  | .ok _ | .error _ => []

/-- The failure that a step with the given answer reports of the session. -/
def failureOf : Except StepError Answer → Option Error
  | .error (.session e) => some e
  | .ok (.entries _ failure?) => failure?
  | .ok _ | .error _ => none

/-- A read as a step returns what it delivers. -/
theorem returned_next (s : Session) : returned (s.step .next).1 = delivered s.next.1 := by
  simp only [step]
  rcases s.next.1 with e | _ | e <;> rfl

theorem returned_demand (s : Session) : returned (s.step .demand).1 = delivered s.next.1 := by
  simp only [step, demand]
  rcases s.next with ⟨e | _ | e, t⟩ <;> rfl

/-- A drain returns what it adds to the entries. -/
theorem returned_drain (s : Session) :
    s.entries.toList ++ returned (s.step .drain).1 = (s.drain none).2.entries.toList := by
  obtain ⟨got, hgot⟩ := entries_prefix_drain s none
  rw [← hgot]
  simp only [step, drainAll, returned, ← hgot, ← Array.length_toList, List.drop_left]

/-- A step other than closing is a stretch of reading, which may be empty. -/
theorem step_stretch (s : Session) {op : Step} (hop : op ≠ .close) :
    Stretch s (returned (s.step op).1) (failureOf (s.step op).1) (s.step op).2 := by
  have hidle : Abreast s (s.step op).2 → Stretch s [] none (s.step op).2 :=
    fun h => stretch_of_abreast h (by rintro e ⟨⟩)
  cases op with
  | next =>
    have hn := next_stretch s
    simp only [step]
    generalize s.next = r at hn
    obtain ⟨answer, t⟩ := r
    rcases answer with e | _ | e
    · exact hn
    · exact hn
    · exact hn
  | demand =>
    have hn := next_stretch s
    simp only [step, demand]
    generalize s.next = r at hn
    obtain ⟨answer, t⟩ := r
    rcases answer with e | _ | e
    · exact hn
    · exact hn
    · exact hn
  | drain =>
    obtain ⟨got, hgot, hd⟩ := drain_stretch s none
    have hr : returned (s.step .drain).1 = got :=
      List.append_cancel_left ((returned_drain s).trans hgot)
    rw [hr]
    exact hd
  | close => exact absurd rfl hop
  | allValues => exact hidle (abreast_of_isInquiry rfl s)
  | metrics => exact hidle (abreast_of_isInquiry rfl s)
  | log => exact hidle (.refl s)
  | closeCalls => exact hidle (.refl s)
  | ask q =>
    have hs := hidle (abreast_of_isInquiry rfl s)
    simp only [step, ask] at hs ⊢
    cases (Entry.step s.entries q).1 <;> exact hs

/-- What the life of a session says of one step. -/
structure Lives (p : Profile) (s : Session) (op : Step) : Prop where
  /-- The phase goes its way. -/
  reaches : Phase.Reaches p s.phase (s.step op).2.phase
  /-- A session is closed by closing it, and for good. -/
  isClosed : (s.step op).2.phase.isClosed = true ↔ s.phase.isClosed = true ∨ op = .close
  /-- The end is returned exactly when the session becomes exhausted. -/
  ends : (∃ e ∈ returned (s.step op).1, e.isEnd = true) ↔
    s.phase.isExhausted = false ∧ (s.step op).2.phase.isExhausted = true
  /-- A fault of the snapshot is reported exactly when the session becomes failed. -/
  fails : (∃ e, failureOf (s.step op).1 = some (.reading e) ∧ e.isFault = true) ↔
    s.phase.isFailed = false ∧ (s.step op).2.phase.isFailed = true
  /-- The version is the one known before, or that of the header that has been accepted. -/
  version : ∀ v, (s.step op).2.phase.version? = some v ↔
    s.phase.version? = some v ∨ op.isRead = true ∧ s.Accepts v
  /-- When the session is over, nothing is read: at most the source is closed. -/
  rests : s.phase.isOver = true → (s.step op).2.bytesRead = s.bytesRead ∧
    ((s.step op).2.intake = s.intake ∨
      op = .close ∧ (s.step op).2.intake = { s.intake with input := s.intake.input.close })

theorem version_step (s : Session) (op : Step) (v : Nat) : (s.step op).2.phase.version? = some v ↔
    s.phase.version? = some v ∨ op.isRead = true ∧ s.Accepts v := by
  have hidle : op.isRead = false → (s.step op).2.phase.version? = s.phase.version? →
      ((s.step op).2.phase.version? = some v ↔
        s.phase.version? = some v ∨ op.isRead = true ∧ s.Accepts v) := by
    intro hr hv
    simp [hr, hv]
  have hread : op.isRead = true → (s.step op).2.phase.version? = s.next.2.phase.version? →
      ((s.step op).2.phase.version? = some v ↔
        s.phase.version? = some v ∨ op.isRead = true ∧ s.Accepts v) := by
    intro hr hv
    simp only [hr, hv, version_next_iff, true_and]
  cases op with
  | next => exact hread rfl rfl
  | demand => exact hread rfl (congrArg (fun t => t.phase.version?) (demand_snd s))
  | drain => exact hread rfl (version_drain s)
  | close =>
    refine hidle rfl ?_
    simp only [step, close]
    split <;> rfl
  | allValues => exact hidle rfl rfl
  | metrics => exact hidle rfl rfl
  | log => exact hidle rfl rfl
  | closeCalls => exact hidle rfl rfl
  | ask q => exact hidle rfl rfl

theorem close_lives (s : Session) : Lives s.profile s .close := by
  have hv := version_step s .close
  have hreturned : returned (s.step .close).1 = [] := rfl
  have hfailure : failureOf (s.step .close).1 = none := rfl
  cases ho : s.phase.isClosed with
  | true =>
    have hc : (s.step .close).2 = s := by simp only [step, close, ho, if_true]
    refine ⟨?_, ?_, ?_, ?_, hv, ?_⟩
    · rw [hc]
    · rw [hc]
      simp [ho]
    · rw [hreturned, hc]
      simp
    · rw [hfailure, hc]
      simp
    · rw [hc]
      exact fun _ => ⟨rfl, .inl rfl⟩
  | false =>
    have hp : (s.step .close).2.phase = .closed s.phase.version? := by
      simp only [step, close, ho, Bool.false_eq_true, if_false]
    have hi : (s.step .close).2.intake = { s.intake with input := s.intake.input.close } := by
      simp only [step, close, ho, Bool.false_eq_true, if_false]
    refine ⟨?_, ?_, ?_, ?_, hv, fun _ => ⟨?_, .inr ⟨rfl, hi⟩⟩⟩
    · rw [hp]
      exact .single (.close ho)
    · simp [hp, Phase.isClosed]
    · rw [hreturned, hp]
      simp [Phase.isExhausted]
    · rw [hfailure, hp]
      simp [Phase.isFailed]
    · simp only [bytesRead, hi, Input.close]
      split <;> rfl

/-- Every step is in keeping with the life of a session. -/
theorem step_lives (s : Session) (op : Step) : Lives s.profile s op := by
  by_cases hop : op = .close
  · subst hop
    exact close_lives s
  · have hs := step_stretch s hop
    refine ⟨hs.reaches, ?_, hs.ends, hs.fails, version_step s op, fun ho => ?_⟩
    · simp [hs.isClosed, hop]
    · obtain ⟨⟨entries, ht⟩, -⟩ := hs.rests ho
      rw [ht]
      exact ⟨rfl, .inl rfl⟩

/-! ### Another profile -/

/-- A session with another profile. -/
def withProfile (s : Session) (q : Profile) : Session :=
  { s with profile := q }

theorem fail_withProfile (s : Session) (q : Profile) (e : ReadError) :
    (s.fail e).withProfile q = (s.withProfile q).fail e := by
  unfold fail withProfile
  dsimp only
  split <;> rfl

theorem close_withProfile (s : Session) (q : Profile) :
    (s.withProfile q).close = s.close.withProfile q := by
  have ho : (s.withProfile q).phase.isClosed = s.phase.isClosed := rfl
  unfold close
  rw [ho]
  cases s.phase.isClosed <;> rfl

/-! ### Runs -/

theorem profile_step (s : Session) (op : Step) : (s.step op).2.profile = s.profile := by
  by_cases hop : op = .close
  · subst hop
    simp only [step, close]
    split <;> rfl
  · exact (step_stretch s hop).profile

theorem profile_run (s : Session) (ops : List Step) : (s.run ops).profile = s.profile :=
  run_invariant (P := fun t => t.profile = s.profile)
    (fun t op ht => (profile_step t op).trans ht) rfl ops

/-- Whatever is done with a session except closing it, there is nothing more in it. -/
def StaysExhausted (s : Session) : Prop :=
  ∀ ops : List Step, Step.close ∉ ops →
    (s.run ops).phase = s.phase ∧ (s.run ops).next = (.ok none, s.run ops) ∧
      (s.run ops).demand = (.error .noMore, s.run ops) ∧
      (s.run ops).drainAll = (.entries [] none, s.run ops)

/-- An exhausted session stays exhausted. -/
theorem staysExhausted_of_isExhausted (h : s.phase.isExhausted = true) : StaysExhausted s := by
  intro ops hops
  have hphase : (s.run ops).phase = s.phase := by
    induction ops generalizing s with
    | nil => rfl
    | cons op ops ih =>
      rw [List.mem_cons, not_or] at hops
      have hs := step_stretch s (Ne.symm hops.1)
      have hp := (hs.rests (Phase.isOver_of_isExhausted h)).1.phase
      exact (ih (by rwa [hp]) hops.2).trans hp
  obtain ⟨v, hv⟩ : ∃ v, (s.run ops).phase = .exhausted v := by
    rw [← hphase] at h
    cases hp : (s.run ops).phase with
    | exhausted v => exact ⟨v, rfl⟩
    | fresh | ready | failed | closed => rw [hp] at h; cases h
  have hl : (none : Option Nat) ≠ some 0 := nofun
  have hn := next_of_exhausted hv
  refine ⟨hphase, hn, ?_, ?_⟩
  · simp only [demand, hn]
  · simp [drainAll, drain_of_none hl hn, Ending.failure?, ← Array.length_toList]

/-- The entries that the steps of a run return when they read. -/
def allReturned (s : Session) (ops : List Step) : List (Entry Packed) :=
  (s.transcript ops).flatMap fun r => returned r.answer

theorem allReturned_cons (s : Session) (op : Step) (ops : List Step) :
    s.allReturned (op :: ops) = returned (s.step op).1 ++ (s.step op).2.allReturned ops :=
  rfl

/-- The end is returned by one step of a run at most, and no step after it returns anything. -/
theorem countP_isEnd_allReturned (s : Session) (ops : List Step) :
    (s.allReturned ops).countP Entry.isEnd ≤ 1 ∧
      (s.phase.isOver = true → s.allReturned ops = []) := by
  induction ops generalizing s with
  | nil => exact ⟨Nat.zero_le _, fun _ => rfl⟩
  | cons op ops ih =>
    obtain ⟨hcount, hnil⟩ := ih (s.step op).2
    rw [allReturned_cons]
    by_cases hop : op = .close
    · subst hop
      have hr : returned (s.step .close).1 = [] := rfl
      have ho : (s.step .close).2.phase.isOver = true :=
        Phase.isOver_of_isClosed ((close_lives s).isClosed.mpr (.inr rfl))
      rw [hr, hnil ho]
      exact ⟨Nat.zero_le _, fun _ => rfl⟩
    · have hs := step_stretch s hop
      constructor
      · by_cases he : ∃ e ∈ returned (s.step op).1, e.isEnd = true
        · rw [hnil (Phase.isOver_of_isExhausted (hs.ends.mp he).2), List.append_nil]
          exact hs.single
        · have hz : (returned (s.step op).1).countP Entry.isEnd = 0 :=
            List.countP_eq_zero.mpr fun e hmem hend => he ⟨e, hmem, hend⟩
          rw [List.countP_append, hz, Nat.zero_add]
          exact hcount
      · intro ho
        obtain ⟨ha, hr⟩ := hs.rests ho
        rw [hr, hnil (by rwa [ha.phase])]
        rfl

theorem intake_step_of_isClosed (h : s.phase.isClosed = true) (op : Step) :
    (s.step op).2.intake = s.intake := by
  by_cases hop : op = .close
  · subst hop
    simp only [step, close, h, if_true]
  · obtain ⟨⟨entries, ht⟩, -⟩ := (step_stretch s hop).rests (Phase.isOver_of_isClosed h)
    rw [ht]

/-- A source is closed once when its session is, and never otherwise. -/
theorem closeCalls_run (p : Profile) (source : Source) (ops : List Step) :
    ((start p source).run ops).closeCalls =
      source.closeCalls + if ((start p source).run ops).phase.isClosed then 1 else 0 := by
  have hrules := Read.rules_openAfter source.closeCalls p
  let Kept (s : Session) : Prop := Keeps p (Input.OpenAfter source.closeCalls) s ∧
    (s.phase.isClosed = true → s.closeCalls = source.closeCalls + 1)
  have hstep : ∀ s op, Kept s → Kept (s.step op).2 := by
    rintro s op ⟨hk, hc⟩
    refine ⟨hk.step hrules op, fun hclosed => ?_⟩
    cases ho : s.phase.isClosed with
    | true => rw [closeCalls, intake_step_of_isClosed ho, ← closeCalls, hc ho]
    | false =>
      have hop : op = .close := by
        simpa [ho] using (step_lives s op).isClosed.mp hclosed
      subst hop
      obtain ⟨hopen, hn⟩ := hk.input ho
      simp [step, close, ho, closeCalls, Input.close, hopen, Source.close, hn]
  have hstart : Kept (start p source) := ⟨keeps_start ⟨rfl, rfl⟩, by rintro ⟨⟩⟩
  obtain ⟨hk, hc⟩ := run_invariant hstep hstart ops
  cases ho : ((start p source).run ops).phase.isClosed with
  | true => exact hc ho
  | false => exact (hk.input ho).closeCalls

/-- **The life of a session.** Whatever the source does and whatever has been done before: every
step is in keeping with the life of a session; from the end of the snapshot on there is nothing
more until it is closed; the end is returned once at most; and the source has been closed once if
the session is closed, and never otherwise. -/
theorem lifecycle_run (p : Profile) (source : Source) (ops : List Step) :
    (∀ op, Lives p ((start p source).run ops) op) ∧
      (((start p source).run ops).phase.isExhausted = true →
        StaysExhausted ((start p source).run ops)) ∧
      ((start p source).allReturned ops).countP Entry.isEnd ≤ 1 ∧
      ((start p source).run ops).closeCalls =
        source.closeCalls + if ((start p source).run ops).phase.isClosed then 1 else 0 := by
  have hprofile : ((start p source).run ops).profile = p := profile_run _ ops
  refine ⟨fun op => ?_, staysExhausted_of_isExhausted, (countP_isEnd_allReturned _ ops).1,
    closeCalls_run p source ops⟩
  have hl := step_lives ((start p source).run ops) op
  rwa [hprofile] at hl

end Session

end RedisDump
