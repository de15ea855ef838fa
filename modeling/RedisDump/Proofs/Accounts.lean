import Mathlib.Algebra.BigOperators.Group.List.Basic
import RedisDump.Proofs.Iterations

/-!
# What the counts say

A session counts each entry when it is returned, and with it the bytes read since the entry before
it. So at any time its counts are those of the entries that have been returned so far, whatever has
failed in between, and the bytes counted are those that had been read when the last entry was
returned (`accounts_run`). For that the session is followed together with what it has returned and
with the numbers of bytes read at those moments, its *marks* (`Accounted`). The counts of decoding
attempts are kept by the entries themselves and leave all others as they are.

So what has been read of a record that is not of the format is never counted, since nothing is
returned after it. What has been read of a record before its source failed is not left out, as
reading goes on behind it (`counts_interrupted`).
-/

namespace RedisDump

/-! ### One entry -/

theorem Metrics.entries_countEntry (m : Metrics) (entry : Counted) (bytes : Int)
    (type : EntryType) : (m.countEntry entry bytes).entries.count type =
      m.entries.count type + if entry.type = type then 1 else 0 := by
  simp only [countEntry, Tally.count_add, eq_comm]

theorem Metrics.keyValues_countEntry (m : Metrics) (entry : Counted) (bytes : Int)
    (kind : ValueKind) : (m.countEntry entry bytes).keyValues.count kind =
      m.keyValues.count kind + if entry.kind? = some kind then 1 else 0 := by
  cases hk : entry.kind? with
  | none => simp [countEntry, hk]
  | some k => simp [countEntry, hk, Tally.count_add, eq_comm]

namespace Session

variable {s t : Session} {got : List (Entry Packed)} {marks : List Nat}

/-! ### Marks -/

/-- The number of bytes read at the moment at which a read returns an entry. -/
def marksOf (r : Except Error (Option (Entry Packed)) × Session) : List Nat :=
  (delivered r.1).map fun _ => r.2.bytesRead

/-- The numbers of bytes read at the moments at which a run of reads returns its entries. -/
def drainMarks (s : Session) (limit : Option Nat) : List Nat :=
  if limit = some 0 then []
  else
    marksOf s.next ++
      match _h : s.next with
      | (.ok (some _), s) => drainMarks s (limit.map Nat.pred)
      | (.ok none, _) | (.error _, _) => []
termination_by s.remaining
decreasing_by exact remaining_next _h

/-- The numbers of bytes read at the moments at which a step returns its entries. -/
def stepMarks (s : Session) : Step → List Nat
  | .next | .demand => marksOf s.next
  | .drain => s.drainMarks none
  | .close | .allValues | .metrics | .log | .closeCalls | .ask _ => []

/-- The numbers of bytes read at the moments at which the steps of a run return their entries. -/
def runMarks (s : Session) : List Step → List Nat
  | [] => []
  | op :: ops => s.stepMarks op ++ runMarks (s.step op).2 ops

theorem drainMarks_of_some {limit : Option Nat} {e : Entry Packed} (hl : limit ≠ some 0)
    (h : s.next = (.ok (some e), t)) :
    s.drainMarks limit = t.bytesRead :: t.drainMarks (limit.map Nat.pred) := by
  rw [drainMarks, if_neg hl]
  split <;> simp_all [marksOf, delivered]

theorem drainMarks_of_last {limit : Option Nat} (h : delivered s.next.1 = []) :
    s.drainMarks limit = [] := by
  rw [drainMarks]
  split
  · rfl
  · split <;> simp_all [marksOf, delivered]

/-! ### Accounts of a session -/

/-- The counts of a session are those of the entries that it has returned, and the bytes counted are
those of the last mark. -/
structure Accounted (got : List (Entry Packed)) (marks : List Nat) (s : Session) : Prop where
  entries : ∀ type, s.tallies.entries.count type = got.countP fun e => e.type = type
  keyValues : ∀ kind,
    s.tallies.keyValues.count kind = got.countP fun e => e.counted.kind? = some kind
  bytesRead : s.tallies.bytesRead = s.counted
  counted : s.counted = marks.getLast?.getD 0
  /-- The version is that of the header that has been accepted. -/
  version : s.tallies.version = (s.phase.version?.getD 0 : Nat)
  /-- There is a mark for each entry. -/
  length : marks.length = got.length
  /-- No bytes are counted with two entries. -/
  ordered : marks.Pairwise (· < ·)
  marks_le : ∀ m ∈ marks, m ≤ s.bytesRead
  /-- Attempts to decode are counted by the entries themselves. -/
  containers : s.tallies.containers = []

theorem accounted_start (p : Profile) (source : Source) : Accounted [] [] (start p source) where
  entries _ := rfl
  keyValues _ := rfl
  bytesRead := rfl
  counted := rfl
  version := rfl
  length := rfl
  ordered := .nil
  marks_le := by simp
  containers := rfl

namespace Accounted

theorem counted_le (h : Accounted got marks s) : s.counted ≤ s.bytesRead := by
  rw [h.counted]
  cases hm : marks.getLast? with
  | none => exact Nat.zero_le _
  | some m => exact h.marks_le m (List.mem_of_getLast? hm)

/-- A session that has moved on without an entry, and has the same counts. -/
theorem of_same (h : Accounted got marks s) (htallies : t.tallies = s.tallies)
    (hcounted : t.counted = s.counted) (hversion : t.phase.version? = s.phase.version?)
    (hread : s.bytesRead ≤ t.bytesRead) : Accounted got marks t where
  entries := by rw [htallies]; exact h.entries
  keyValues := by rw [htallies]; exact h.keyValues
  bytesRead := by rw [htallies, hcounted]; exact h.bytesRead
  counted := hcounted.trans h.counted
  version := by rw [htallies, hversion]; exact h.version
  length := h.length
  ordered := h.ordered
  marks_le m hm := Nat.le_trans (h.marks_le m hm) hread
  containers := by rw [htallies]; exact h.containers

/-- A read that fails counts nothing. -/
theorem fail (h : Accounted got marks s) {intake : Intake} {e : ReadError}
    (hread : s.bytesRead ≤ (({ s with intake := intake } : Session).fail e).bytesRead) :
    Accounted got marks (({ s with intake := intake } : Session).fail e) :=
  h.of_same (tallies_fail _ e) (counted_fail _ e) (version_fail _ e) hread

theorem openSnapshot (h : Accounted got marks s) : Accounted got marks s.openSnapshot.2 := by
  have hread := bytesRead_le_openSnapshot s
  cases hr : ReadRecord.fromInput (Read.header s.profile) s.intake with
  | ok version intake =>
    rw [openSnapshot_of_ok hr] at hread ⊢
    exact ⟨h.entries, h.keyValues, h.bytesRead, h.counted, rfl, h.length, h.ordered,
      fun m hm => Nat.le_trans (h.marks_le m hm) hread, h.containers⟩
  | error e intake =>
    rw [openSnapshot_of_error hr] at hread ⊢
    exact h.fail hread

/-- An entry is counted with the bytes read since the last one. -/
theorem readEntry (h : Accounted got marks s) {version : Nat} (hp : s.phase = .ready version) :
    Accounted (got ++ delivered (s.readEntry version).1)
      (marks ++ marksOf (s.readEntry version)) (s.readEntry version).2 := by
  have hread := bytesRead_le_readEntry s version
  cases hr : ReadRecord.entry s.profile version s.intake with
  | error e intake =>
    rw [readEntry_of_error hr] at hread ⊢
    simp only [delivered, marksOf, List.map_nil, List.append_nil]
    exact h.fail hread
  | ok e intake =>
    have hlt : s.bytesRead < intake.consumed := consumed_lt_of_entry hr
    have hcounted := h.counted_le
    rw [readEntry_of_ok hr]
    let t : Session := (({ s with intake := intake } : Session).advance version e).deliver e
    have hbytes : t.bytesRead = intake.consumed := by simp [t, Session.bytesRead, Intake.consumed]
    have htallies : t.tallies =
        s.tallies.countEntry e.counted (intake.consumed - s.counted : Int) := by
      simp [t, deliver, Session.bytesRead, Intake.consumed]
    have hlast : t.counted = intake.consumed := hbytes
    have hversion : t.phase.version? = s.phase.version? :=
      version_advance { s with intake := intake } hp e
    change Accounted (got ++ [e]) (marks ++ [t.bytesRead]) t
    constructor
    · intro type
      rw [htallies, Metrics.entries_countEntry, h.entries, List.countP_append,
        List.countP_singleton]
      simp only [decide_eq_true_eq]
      rfl
    · intro kind
      rw [htallies, Metrics.keyValues_countEntry, h.keyValues, List.countP_append,
        List.countP_singleton]
      simp only [decide_eq_true_eq]
    · rw [htallies, hlast]
      simp only [Metrics.countEntry, h.bytesRead]
      omega
    · rw [List.getLast?_concat, hlast, hbytes]
      rfl
    · rw [htallies, hversion]
      exact h.version
    · rw [List.length_append, List.length_append, h.length]
      rfl
    · rw [List.pairwise_append]
      refine ⟨h.ordered, List.pairwise_singleton _ _, fun m hm n hn => ?_⟩
      have hle := h.marks_le m hm
      rw [List.mem_singleton.mp hn, hbytes]
      omega
    · intro m hm
      rw [hbytes]
      rcases List.mem_append.mp hm with hm | hm
      · have hle := h.marks_le m hm
        omega
      · exact Nat.le_of_eq ((List.mem_singleton.mp hm).trans hbytes)
    · rw [htallies]
      exact h.containers

/-- A read that returns an entry counts it, and any other read counts nothing. -/
theorem next (h : Accounted got marks s) :
    Accounted (got ++ delivered s.next.1) (marks ++ marksOf s.next) s.next.2 := by
  have hidle : ∀ {answer : Except Error (Option (Entry Packed))} {u : Session},
      delivered answer = [] → Accounted got marks u →
        Accounted (got ++ delivered answer) (marks ++ marksOf (answer, u)) u := by
    intro answer u hnone hu
    rw [marksOf, hnone, List.map_nil, List.append_nil, List.append_nil]
    exact hu
  cases hp : s.phase with
  | ready version =>
    rw [next_of_ready hp]
    exact h.readEntry hp
  | fresh =>
    have hopen := h.openSnapshot
    cases ho : s.openSnapshot with
    | mk answer t =>
      rw [ho] at hopen
      cases answer with
      | ok version =>
        rw [next_of_fresh hp ho]
        exact hopen.readEntry (phase_of_openSnapshot ho)
      | error e =>
        rw [next_of_fresh_error hp ho]
        exact hidle rfl hopen
  | exhausted version =>
    rw [next_of_exhausted hp]
    exact hidle rfl h
  | failed version? =>
    rw [next_of_failed hp]
    exact hidle rfl h
  | closed version? =>
    rw [next_of_closed hp]
    exact hidle rfl h

theorem next_of_unreturned (h : Accounted got marks s) (hnone : delivered s.next.1 = []) :
    Accounted got marks s.next.2 := by
  have hnext := h.next
  rwa [marksOf, hnone, List.map_nil, List.append_nil, List.append_nil] at hnext

/-- A run of reads counts the entries that it returns. -/
theorem drain (h : Accounted got marks s) (limit : Option Nat) :
    ∃ more, (s.drain limit).2.entries.toList = s.entries.toList ++ more ∧
      Accounted (got ++ more) (marks ++ s.drainMarks limit) (s.drain limit).2 := by
  fun_induction Session.drain s limit generalizing got marks with
  | case1 s =>
    refine ⟨[], (List.append_nil _).symm, ?_⟩
    rw [drainMarks, if_pos rfl, List.append_nil, List.append_nil]
    exact h
  | case2 s limit hl e t hs ih =>
    have hn := h.next
    have he := entries_next s
    rw [hs] at hn he
    obtain ⟨more, hmore, hd⟩ := ih hn
    refine ⟨e :: more, ?_, ?_⟩
    · rw [hmore, he, delivered, List.append_assoc, List.singleton_append]
    · rw [drainMarks_of_some hl hs]
      simpa [delivered, marksOf] using hd
  | case3 s limit hl t hs =>
    have hn := h.next
    have he := entries_next s
    rw [drainMarks_of_last (by rw [hs]; rfl)]
    rw [hs] at hn he
    exact ⟨[], he, hn⟩
  | case4 s limit hl e t hs =>
    have hn := h.next
    have he := entries_next s
    rw [drainMarks_of_last (by rw [hs]; rfl)]
    rw [hs] at hn he
    exact ⟨[], he, hn⟩

/-- A step counts the entries that it returns. -/
theorem step (h : Accounted got marks s) (op : Step) :
    Accounted (got ++ returned (s.step op).1) (marks ++ s.stepMarks op) (s.step op).2 := by
  have hidle : ∀ {u : Session}, u.tallies = s.tallies → u.counted = s.counted →
      u.phase.version? = s.phase.version? → u.bytesRead = s.bytesRead →
        Accounted (got ++ []) (marks ++ []) u := by
    intro u htallies hcounted hversion hread
    rw [List.append_nil, List.append_nil]
    exact h.of_same htallies hcounted hversion (Nat.le_of_eq hread.symm)
  cases op with
  | next =>
    rw [returned_next]
    exact h.next
  | demand =>
    rw [returned_demand]
    have hsnd : (s.step .demand).2 = s.next.2 := demand_snd s
    rw [hsnd]
    exact h.next
  | drain =>
    obtain ⟨more, hmore, hd⟩ := h.drain none
    have hr : returned (s.step .drain).1 = more :=
      List.append_cancel_left ((returned_drain s).trans hmore)
    rw [hr]
    exact hd
  | close =>
    have hclose : (s.step .close).2 = s.close := rfl
    unfold Session.close at hclose
    split at hclose
    · rw [hclose]
      exact hidle rfl rfl rfl rfl
    · rw [hclose]
      exact hidle rfl rfl rfl (remaining_close_le s.intake.input).1
  | allValues => exact hidle rfl rfl rfl rfl
  | metrics | log | closeCalls => exact hidle rfl rfl rfl rfl
  | ask q =>
    have hr : returned (s.step (.ask q)).1 = [] := by
      simp only [Session.step, ask]
      cases (Entry.step s.entries q).1 <;> rfl
    rw [hr]
    exact hidle rfl rfl rfl rfl

/-- The steps of a run count the entries that they return. -/
theorem run (h : Accounted got marks s) (ops : List Step) :
    Accounted (got ++ s.allReturned ops) (marks ++ s.runMarks ops) (s.run ops) := by
  induction ops generalizing s got marks with
  | nil =>
    rw [runMarks, List.append_nil]
    exact (List.append_nil got).symm ▸ h
  | cons op ops ih =>
    rw [allReturned_cons, runMarks, ← List.append_assoc, ← List.append_assoc]
    exact ih (h.step op)

/-- The steps of a session that is over count nothing. -/
theorem run_of_isOver (h : Accounted got marks s) (ho : s.phase.isOver = true) (ops : List Step) :
    Accounted got marks (s.run ops) := by
  have hrun := h.run ops
  have hnone : s.allReturned ops = [] := (countP_isEnd_allReturned s ops).2 ho
  rw [hnone, List.append_nil] at hrun
  have hmarks : s.runMarks ops = [] := by
    have hlength := hrun.length
    rw [List.length_append, h.length] at hlength
    exact List.length_eq_zero_iff.mp (by omega)
  rwa [hmarks, List.append_nil] at hrun

end Accounted

/-- A session with a final error is over. -/
theorem isOver_of_isFinal {e : Error} (h : s.next = (.error e, t)) (he : e.isFinal = true) :
    t.phase.isOver = true := by
  cases ho : s.phase.isClosed with
  | true =>
    obtain ⟨version?, hp⟩ : ∃ version?, s.phase = .closed version? := by
      cases hp : s.phase with
      | closed version? => exact ⟨version?, rfl⟩
      | fresh | ready | exhausted | failed => rw [hp] at ho; cases ho
    cases h.symm.trans (next_of_closed hp)
    exact Phase.isOver_of_isClosed ho
  | false =>
    have hstays : StaysFailed t := (staysFailed_iff_isFinal ho h).mpr he
    have hp : t.phase = .failed t.phase.version? := (hstays [] List.not_mem_nil).1
    rw [hp]
    rfl

/-! ### Attempts to decode are counted apart -/

theorem countAttempts_eq (m : Metrics) (e : Entry Packed) :
    ∃ containers, countAttempts m e = { m with containers := containers } := by
  unfold countAttempts
  split
  · split
    · exact ⟨_, rfl⟩
    · exact ⟨m.containers, rfl⟩
  · exact ⟨m.containers, rfl⟩

/-- The counts are those that a session keeps, but for the attempts to decode packed values. -/
theorem metrics_eq (s : Session) :
    ∃ containers, s.metrics = { s.tallies with containers := containers } := by
  have hfold : ∀ (entries : List (Entry Packed)) (m : Metrics),
      ∃ containers, entries.foldl countAttempts m = { m with containers := containers } := by
    intro entries
    induction entries with
    | nil => exact fun m => ⟨m.containers, rfl⟩
    | cons e entries ih =>
      intro m
      obtain ⟨first, hfirst⟩ := countAttempts_eq m e
      obtain ⟨later, hlater⟩ := ih (countAttempts m e)
      refine ⟨later, ?_⟩
      rw [List.foldl_cons, hlater, hfirst]
  unfold metrics
  rw [← Array.foldl_toList]
  exact hfold s.entries.toList s.tallies

/-- The bytes that a session shows are those that it has counted. -/
theorem Accounted.bytesRead_metrics (h : Accounted got marks s) :
    s.metrics.bytesRead = marks.getLast?.getD 0 := by
  obtain ⟨containers, hm⟩ := metrics_eq s
  rw [hm]
  exact h.bytesRead.trans h.counted

/-! ### Runs -/

/-- A pair is of one kind, and no other entry is of any. -/
theorem sum_kinds (e : Entry Packed) :
    (ValueKind.all.map fun kind => if e.counted.kind? = some kind then 1 else 0).sum =
      if e.type = .keyValue then 1 else 0 := by
  cases e with
  | eof | selectDb | resizeDb | aux => simp [Entry.counted, Counted.kind?, Entry.type, Counted.type]
  | keyValue fields values =>
    have hone : ∀ k, (ValueKind.all.map fun kind => if k = kind then 1 else 0).sum = 1 := by
      intro k
      cases k <;> rfl
    simpa [Entry.counted, Counted.kind?, Entry.type, Counted.type] using hone fields.kind

/-- The numbers of pairs of each kind make up the number of pairs. -/
theorem sum_countP_kind (got : List (Entry Packed)) :
    (ValueKind.all.map fun kind => got.countP fun e => e.counted.kind? = some kind).sum =
      got.countP fun e => e.type = .keyValue := by
  induction got with
  | nil => rfl
  | cons e got ih =>
    simp only [List.countP_cons, decide_eq_true_eq, List.sum_map_add, ih, sum_kinds]

/-- What the counts of a session say, after the entries `got` have been returned with the given
marks. -/
structure Accounts (got : List (Entry Packed)) (marks : List Nat) (s : Session) : Prop where
  /-- The entries of each type have been counted. -/
  entries : ∀ type, s.metrics.entries.count type = got.countP fun e => e.type = type
  /-- The pairs of each kind have been counted. -/
  keyValues : ∀ kind,
    s.metrics.keyValues.count kind = got.countP fun e => e.counted.kind? = some kind
  keyValues_sum : (ValueKind.all.map s.metrics.keyValues.count).sum =
    s.metrics.entries.count .keyValue
  /-- The bytes counted are those read when the last entry was returned. -/
  bytesRead : s.metrics.bytesRead = marks.getLast?.getD 0
  /-- There is a mark for each entry, and each lies behind the one before it. -/
  marks : marks.length = got.length ∧ marks.Pairwise (· < ·) ∧ ∀ m ∈ marks, m ≤ s.bytesRead
  /-- A read that returns no entry counts no bytes. -/
  unreturned : delivered s.next.1 = [] → s.next.2.metrics.bytesRead = s.metrics.bytesRead
  /-- The bytes of a record that is not of the format are never counted, whatever is done then. -/
  refused : ∀ e s', s.next = (.error e, s') → e.isFinal = true →
    ∀ ops, (s'.run ops).metrics.bytesRead = s.metrics.bytesRead
  /-- The version is that of the header that has been accepted, if there is one. -/
  version : s.metrics.version = (s.phase.version?.getD 0 : Nat)

/-- **What the counts say.** Whatever the source does, and whatever steps have been made and have
failed, the counts of a session are those of the entries that it has returned. -/
theorem accounts_run (p : Profile) (source : Source) (ops : List Step) :
    Accounts ((start p source).allReturned ops) ((start p source).runMarks ops)
      ((start p source).run ops) := by
  have h := (accounted_start p source).run ops
  rw [List.nil_append, List.nil_append] at h
  generalize (start p source).run ops = s at h
  obtain ⟨containers, hm⟩ := metrics_eq s
  have hentries : s.metrics.entries = s.tallies.entries := by rw [hm]
  have hkeyValues : s.metrics.keyValues = s.tallies.keyValues := by rw [hm]
  have hversion : s.metrics.version = s.tallies.version := by rw [hm]
  refine ⟨?_, ?_, ?_, h.bytesRead_metrics, ⟨h.length, h.ordered, h.marks_le⟩, ?_, ?_,
    hversion.trans h.version⟩
  · rw [hentries]
    exact h.entries
  · rw [hkeyValues]
    exact h.keyValues
  · rw [hentries, hkeyValues, h.entries, ← sum_countP_kind]
    exact congrArg List.sum (List.map_congr_left fun kind _ => h.keyValues kind)
  · intro hnone
    rw [(h.next_of_unreturned hnone).bytesRead_metrics, h.bytesRead_metrics]
  · intro e s' hs hfinal ops
    have hnext := h.next_of_unreturned (by rw [hs]; rfl)
    rw [hs] at hnext
    have hrun := hnext.run_of_isOver (isOver_of_isFinal hs hfinal) ops
    rw [hrun.bytesRead_metrics, h.bytesRead_metrics]

/-- A session whose source fails inside a record, of which two bytes have been taken, counts these
two bytes all the same, with the next entry. -/
theorem counts_interrupted : ∃ s t u e,
    (start .standard interruptedSource).openSnapshot = (.ok 11, s) ∧ s.bytesRead = 9 ∧
      (start .standard interruptedSource).next = (.error (.reading (.source .failed)), t) ∧
      t.bytesRead = 9 + 2 ∧ t.metrics.bytesRead = 0 ∧
      t.next = (.ok (some e), u) ∧ u.bytesRead = 9 + 2 + 3 ∧ u.metrics.bytesRead = 9 + 2 + 3 :=
  ⟨beforeInterruption, interrupted, resumed, strayKey, openSnapshot_interruptedSource, rfl,
    next_interruptedSource, rfl, rfl, next_interrupted, rfl, rfl⟩

end Session

end RedisDump
