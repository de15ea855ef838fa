import RedisDump.Proofs.Accounts
import RedisDump.Proofs.Deferral
import RedisDump.Proofs.Pairing

/-!
# Which containers are counted

What is counted of a container is every attempt to decode it, and not only the one that realizes it.
As a container gives the same answer at every attempt, it is either realized by the first one, which
is the only one, or refused by all (`Deferred.Settled`). So the containers counted in a form are
those that have been realized and the failed attempts of the others; and every failed attempt is the
failure of a question, which reports it (`containers_run`).
-/

namespace RedisDump

/-! ### One list -/

namespace Deferred

variable {δ ε : Type}

/-- The failed attempts to decode a list that is still pending. -/
def failures : Deferred δ → Nat
  | realized .. => 0
  | pending _ attempts => attempts

/-- A list of packed elements as attempts to decode it can leave it. -/
inductive Settled : Deferred Packed → Prop where
  /-- The elements were known from the start. -/
  | known (elements : List Bytes) : Settled (realized none elements 0)
  /-- The first attempt has succeeded. -/
  | decoded (packed : Packed) (elements : List Bytes) : Settled (realized (some packed) elements 1)
  /-- There has been no attempt. -/
  | untried (packed : Packed) : Settled (pending packed 0)
  /-- All attempts have failed. -/
  | refused {packed : Packed} {e : PackedError} (attempts : Nat) : packed.decode = .error e →
    Settled (pending packed attempts)

/-- The attempts that have failed when an error is given. -/
def Error.misses : Error ε → Nat
  | decoding _ => 1
  | position _ | zeroStep | absent | unhashable => 0

/-- The attempts that have failed when an answer is given. -/
def misses {α : Type} : Except (Error ε) α → Nat
  | .error e => e.misses
  | .ok _ => 0

theorem misses_eq_zero {α : Type} {answer : Except (Error ε) α}
    (h : ∀ e, answer ≠ .error (.decoding e)) : misses answer = 0 := by
  cases answer with
  | ok a => rfl
  | error e =>
    cases e with
    | decoding e => exact absurd rfl (h e)
    | position | zeroStep | absent | unhashable => rfl

namespace Settled

variable {d : Deferred Packed}

theorem force (h : Settled d) : Settled d.force.2 := by
  cases h with
  | known elements => exact .known elements
  | decoded packed elements => exact .decoded packed elements
  | untried packed =>
    rw [force_pending]
    cases hd : packed.decode with
    | ok elements => exact .decoded packed elements
    | error e => exact .refused 1 hd
  | refused attempts hd =>
    rw [force_pending, hd]
    exact .refused (attempts + 1) hd

/-- An attempt that fails is one failure more. -/
theorem failures_force (h : Settled d) :
    d.force.2.failures = d.failures + misses (d.force.1.mapError Error.decoding) := by
  cases h with
  | known | decoded => rfl
  | untried packed =>
    rw [force_pending]
    cases packed.decode <;> rfl
  | refused attempts hd =>
    rw [force_pending, hd]
    rfl

theorem attempts_eq (h : Settled d) {packed : Packed} (hc : d.captured? = some packed) :
    d.attempts = (if d.isRealized then 1 else 0) + d.failures := by
  cases h with
  | known => cases hc
  | decoded => rfl
  | untried => rfl
  | refused => exact (Nat.zero_add _).symm

/-- A container that can be decoded has not failed. -/
theorem failures_of_decodes (h : Settled d) {packed : Packed} {elements : List Bytes}
    (hc : d.captured? = some packed) (hd : packed.decode = .ok elements) : d.failures = 0 := by
  cases h with
  | known | decoded | untried => rfl
  | refused attempts he =>
    cases hc
    rw [hd] at he
    cases he

theorem failures_withElements (h : Settled d)
    {answer : List Bytes → Except (Error PackedError) (Answer Packed)}
    (hanswer : ∀ xs, misses (answer xs) = 0) (q : Step) :
    (d.withElements answer (q.failure Packed)).2.failures =
      d.failures + misses (d.withElements answer (q.failure Packed)).1 := by
  have hf := h.failures_force
  unfold withElements
  generalize d.force = x at hf
  obtain ⟨r, d'⟩ := x
  cases r with
  | ok xs => rw [hf, hanswer]; rfl
  | error e =>
    dsimp only
    rw [(plain_packed e).failure]
    exact hf

/-- A question that fails for want of the elements is one failure more. -/
theorem failures_step (h : Settled d) (q : Step) :
    (d.step q).2.failures = d.failures + misses (d.step q).1 := by
  cases hq : q.needsElements with
  | false =>
    obtain ⟨hsnd, hfst⟩ := step_of_not_needsElements hq d
    rw [hsnd, misses_eq_zero hfst, Nat.add_zero]
  | true =>
    obtain ⟨answer, hfair, hstep⟩ := step_of_needsElements (δ := Packed) hq
    rw [hstep]
    exact h.failures_withElements (fun xs => misses_eq_zero (hfair xs)) q

end Settled

end Deferred

/-! ### Rows of entries -/

namespace Entry

/-- The container that holds the elements of an entry. -/
def packed? (e : Entry Packed) : Option Packed :=
  e.values?.bind Deferred.captured?

/-- Whether an entry is a key whose elements are known. -/
def isRealized (e : Entry Packed) : Bool :=
  e.values?.any Deferred.isRealized

/-- The failed attempts to decode the elements of an entry. -/
def failures : Entry Packed → Nat
  | keyValue _ values => values.failures
  | eof _ | selectDb _ | resizeDb .. | aux .. => 0

/-- An entry as attempts to decode its elements can leave it. -/
def Settled : Entry Packed → Prop
  | keyValue _ values => values.Settled
  | eof _ | selectDb _ | resizeDb .. | aux .. => True

/-- An entry that has just been read is not decoded. -/
theorem AsRead.settled {p : Profile} {version : Nat} {e : Entry Packed}
    (h : AsRead p version e) : e.Settled ∧ e.failures = 0 := by
  cases h with
  | eof | selectDb | resizeDb | aux => exact ⟨trivial, rfl⟩
  | keyValue c _ => cases c with
    | string | list | set | sortedSet | sortedSet2 | hash => exact ⟨.known _, rfl⟩
    | container | quicklist | quicklist2 => exact ⟨.untried _, rfl⟩

/-- The failed attempts to decode the elements of a row of entries. -/
def failuresIn (entries : Array (Entry Packed)) : Nat :=
  (entries.toList.map failures).sum

/-- The attempts that have failed when an error is given. -/
def Error.misses : Error PackedError → Nat
  | values e => e.misses
  | position _ | noField .. | invalid _ => 0

/-- The attempts that have failed when a question is answered. -/
def misses {α : Type} : Except (Error PackedError) α → Nat
  | .error e => e.misses
  | .ok _ => 0

theorem sum_set (l : List (Entry Packed)) {p : Nat} (hp : p < l.length) (e : Entry Packed) :
    ((l.set p e).map failures).sum + l[p].failures = (l.map failures).sum + e.failures := by
  induction l generalizing p with
  | nil => cases hp
  | cons a l ih =>
    cases p with
    | zero =>
      simp only [List.set_cons_zero, List.map_cons, List.sum_cons, List.getElem_cons_zero]
      omega
    | succ p =>
      have hl := ih (Nat.lt_of_succ_lt_succ hp)
      simp only [List.set_cons_succ, List.map_cons, List.sum_cons, List.getElem_cons_succ]
      omega

/-- Another entry in a place takes its own failures with it. -/
theorem failuresIn_set (entries : Array (Entry Packed)) {p : Nat} (hp : p < entries.size)
    (e : Entry Packed) :
    failuresIn (entries.set p e hp) + entries[p].failures = failuresIn entries + e.failures := by
  unfold failuresIn
  rw [Array.toList_set]
  exact sum_set entries.toList hp e

variable {entries : Array (Entry Packed)}

theorem failuresIn_atPosition {i : Int}
    {go : Fin entries.size → Except (Error PackedError) (Answer Packed) × Array (Entry Packed)}
    (hgo : ∀ p, failuresIn (go p).2 = failuresIn entries + misses (go p).1) :
    failuresIn (atPosition entries i go).2 =
      failuresIn entries + misses (atPosition entries i go).1 := by
  unfold atPosition
  split
  · exact hgo _
  · rfl

theorem failuresIn_askValues (h : ∀ e ∈ entries, e.Settled) (p : Fin entries.size)
    (field : String) (q : Deferred.Step) :
    failuresIn (askValues entries p field q).2 =
      failuresIn entries + misses (askValues entries p field q).1 := by
  have hp : entries[p].Settled := h _ (Array.getElem_mem p.isLt)
  unfold askValues
  cases he : entries[p] with
  | keyValue fields values =>
    rw [he] at hp
    have hstep := Deferred.Settled.failures_step hp q
    have hset := failuresIn_set entries p.isLt (.keyValue fields (values.step q).2)
    have hold : entries[p.val].failures = values.failures := congrArg failures he
    have hmiss : misses (((values.step q).1.map Answer.values).mapError Error.values) =
        Deferred.misses (values.step q).1 := by
      rcases (values.step q).1 with e | a <;> rfl
    change failuresIn (entries.set p (.keyValue fields (values.step q).2) p.isLt) =
      failuresIn entries + misses (((values.step q).1.map Answer.values).mapError Error.values)
    rw [hmiss]
    rw [hold] at hset
    simp only [failures] at hset
    omega
  | eof | selectDb | resizeDb | aux => rfl

theorem failures_compare {e e' : Entry Packed} (h : e.Settled) (h' : e'.Settled) :
    (compare e e').2.1.failures + (compare e e').2.2.failures =
      e.failures + e'.failures +
        Deferred.misses ((compare e e').1.mapError Deferred.Error.decoding) := by
  unfold compare
  split
  · rename_i fields values fields' values'
    have hf := Deferred.Settled.failures_force h
    have hf' := Deferred.Settled.failures_force h'
    split
    · generalize values.force = x, values'.force = x' at hf hf'
      obtain ⟨answer, d⟩ := x
      obtain ⟨answer', d'⟩ := x'
      cases answer with
      | error e =>
        simp only [failures] at hf ⊢
        rw [hf, Nat.add_right_comm]
        rfl
      | ok xs =>
        cases answer' with
        | error e =>
          simp only [failures] at hf hf' ⊢
          rw [hf, hf']
          rfl
        | ok xs' =>
          simp only [failures] at hf hf' ⊢
          rw [hf, hf']
          rfl
    · rfl
  · rfl

theorem failuresIn_askEquals (h : ∀ e ∈ entries, e.Settled) (p q : Fin entries.size) :
    failuresIn (askEquals entries p q).2 =
      failuresIn entries + misses (askEquals (ε := PackedError) entries p q).1 := by
  have hp : entries[p].Settled := h _ (Array.getElem_mem p.isLt)
  have hq : entries[q].Settled := h _ (Array.getElem_mem q.isLt)
  have hc := failures_compare hp hq
  unfold askEquals
  split
  · rfl
  · rename_i hpq
    have hne : p.val ≠ q.val := fun h => hpq (Fin.ext h)
    generalize entries[p].compare entries[q] = r at hc
    obtain ⟨answer, e, e'⟩ := r
    have hsize : q.val < (entries.set p e).size := by simp
    have hget : (entries.set p e)[q.val] = entries[q] := by
      rw [Array.getElem_set_ne _ _ hne]
      rfl
    have hfirst := failuresIn_set entries p.isLt e
    have hsecond := failuresIn_set (entries.set p e) hsize e'
    rw [hget] at hsecond
    have hmiss : misses ((answer.map Answer.truth).mapError fun error =>
        Error.values (.decoding error) : Except (Error PackedError) (Answer Packed)) =
        Deferred.misses (answer.mapError Deferred.Error.decoding) := by
      cases answer <;> rfl
    simp only [Array.setIfInBounds, p.isLt, hsize, dif_pos, hmiss]
    change failuresIn (entries.set p e) + entries[p].failures = _ at hfirst
    dsimp only at hc
    omega

/-- A question that fails for want of elements is one failure more. -/
theorem failuresIn_step (h : ∀ e ∈ entries, e.Settled) (q : Step) :
    failuresIn (step (ε := PackedError) entries q).2 =
      failuresIn entries + misses (step (ε := PackedError) entries q).1 := by
  cases q with
  | entry i => exact failuresIn_atPosition fun _ => rfl
  | values i => exact failuresIn_atPosition fun p => failuresIn_askValues h p _ _
  | list i q => exact failuresIn_atPosition fun p => failuresIn_askValues h p _ _
  | equals i j =>
    refine failuresIn_atPosition fun p => ?_
    exact failuresIn_atPosition fun p' => failuresIn_askEquals h p p'
  | sameHash i j => exact failuresIn_atPosition fun _ => failuresIn_atPosition fun _ => rfl
  | assign i field => exact failuresIn_atPosition fun _ => rfl

theorem settled_step (h : ∀ e ∈ entries, e.Settled) (q : Step) :
    ∀ e ∈ (step (ε := PackedError) entries q).2, e.Settled :=
  forall_step (fun _ _ hv => Deferred.Settled.force hv) h q

/-- Whether an answer for an entry is that its elements cannot be decoded. -/
def isMissed : Option (Except PackedError (List Bytes)) → Bool
  | some (.error _) => true
  | some (.ok _) | none => false

/-- Decoding all entries fails as often as it is answered with an error. -/
theorem failuresIn_forceValues (h : ∀ e ∈ entries, e.Settled) :
    failuresIn ((entries.map forceValues).map Prod.snd) =
      failuresIn entries + ((entries.map forceValues).toList.map Prod.fst).countP isMissed := by
  have hlist : ∀ l : List (Entry Packed), (∀ e ∈ l, e.Settled) →
      (((l.map forceValues).map Prod.snd).map failures).sum =
        (l.map failures).sum + ((l.map forceValues).map Prod.fst).countP isMissed := by
    intro l hl
    induction l with
    | nil => rfl
    | cons e l ih =>
      have he := hl e List.mem_cons_self
      have hone : e.forceValues.2.failures =
          e.failures + if isMissed e.forceValues.1 then 1 else 0 := by
        cases e with
        | keyValue fields values =>
          have hf := Deferred.Settled.failures_force he
          change values.force.2.failures =
            values.failures + if isMissed (some values.force.1) then 1 else 0
          rw [hf]
          rcases values.force.1 with e | xs <;> rfl
        | eof | selectDb | resizeDb | aux => rfl
      have hrest := ih fun e' he' => hl e' (List.mem_cons_of_mem _ he')
      simp only [List.map_cons, List.sum_cons, List.countP_cons, hone, hrest]
      omega
  unfold failuresIn
  simp only [Array.toList_map]
  exact hlist entries.toList fun e he => h e (Array.mem_toList_iff.mp he)

end Entry

/-! ### Sessions -/

namespace Session

variable {s t : Session} {failed : Nat}

/-- The attempts that have failed when a step is answered. -/
def failedDecodings : Except StepError Answer → Nat
  | .ok (.values answers) => answers.countP Entry.isMissed
  | .error (.asked e) => e.misses
  | .ok _ | .error _ => 0

/-- The entries of a session are as attempts to decode them can leave them, and so many attempts
have failed. -/
structure Tried (failed : Nat) (s : Session) : Prop where
  settled : ∀ e ∈ s.entries, e.Settled
  failures : Entry.failuresIn s.entries = failed

theorem tried_start (p : Profile) (source : Source) : Tried 0 (start p source) where
  settled := by simp [start]
  failures := rfl

namespace Tried

theorem of_same (h : Tried failed s) (he : t.entries = s.entries) : Tried failed t where
  settled := by rw [he]; exact h.settled
  failures := by rw [he]; exact h.failures

/-- An entry that has just been read is not decoded. -/
theorem readEntry (h : Tried failed s) (version : Nat) : Tried failed (s.readEntry version).2 := by
  have hyields : ReadRecord.Yields Anything (Entry.AsRead s.profile version) Anything s.profile
      version _ := ReadRecord.entry_yields (.anything s.profile)
  have hend := hyields s.intake trivial
  cases hr : ReadRecord.entry s.profile version s.intake with
  | error e intake =>
    rw [readEntry_of_error hr]
    exact h.of_same (entries_fail _ _)
  | ok e intake =>
    rw [hr] at hend
    obtain ⟨hsettled, hfresh⟩ := hend.of_ok.1.settled
    rw [readEntry_of_ok hr]
    constructor
    · intro e' hmem
      rw [entries_deliver, entries_advance] at hmem
      rcases Array.mem_push.mp hmem with hmem | rfl
      · exact h.settled e' hmem
      · exact hsettled
    · rw [entries_deliver, entries_advance]
      simpa [Entry.failuresIn, hfresh] using h.failures

theorem next (h : Tried failed s) : Tried failed s.next.2 :=
  next_invariant (fun s _ hs => hs.of_same (entries_openSnapshot s))
    (fun _ version _ hs => hs.readEntry version) h

/-- What a step reports to have failed has failed, and nothing else. -/
theorem step (h : Tried failed s) (op : Step) :
    Tried (failed + failedDecodings (s.step op).1) (s.step op).2 := by
  cases op with
  | next =>
    have hnone : failedDecodings (s.step .next).1 = 0 := by
      simp only [Session.step]
      rcases s.next.1 with e | e <;> rfl
    rw [hnone]
    exact h.next
  | demand =>
    have hnone : failedDecodings (s.step .demand).1 = 0 := by
      simp only [Session.step, demand]
      rcases s.next with ⟨e | _ | e, t⟩ <;> rfl
    have hsnd : (s.step .demand).2 = s.next.2 := demand_snd s
    rw [hnone, hsnd]
    exact h.next
  | drain => exact drain_invariant (fun _ hs => hs.next) h none
  | close =>
    refine h.of_same ?_
    simp only [Session.step, Session.close]
    split <;> rfl
  | metrics | log | closeCalls => exact h
  | allValues =>
    refine ⟨Entry.forall_forceValues (fun _ _ hv => Deferred.Settled.force hv) h.settled, ?_⟩
    rw [← h.failures]
    exact Entry.failuresIn_forceValues h.settled
  | ask q =>
    refine ⟨Entry.settled_step h.settled q, ?_⟩
    have hmiss : failedDecodings (s.step (.ask q)).1 =
        Entry.misses (Entry.step (ε := PackedError) s.entries q).1 := by
      simp only [Session.step, ask]
      rcases (Entry.step (ε := PackedError) s.entries q).1 with e | a <;> rfl
    rw [hmiss, ← h.failures]
    exact Entry.failuresIn_step h.settled q

theorem run (h : Tried failed s) (ops : List Step) :
    Tried (failed + ((s.transcript ops).map fun r => failedDecodings r.answer).sum)
      (s.run ops) := by
  induction ops generalizing s failed with
  | nil => exact h
  | cons op ops ih =>
    have hrest := ih (h.step op)
    rw [Nat.add_assoc] at hrest
    exact hrest

end Tried

/-! ### Counts -/

/-- The entries of a session whose elements lie in a container of the given form. -/
def containersOf (s : Session) (format : String) : List (Entry Packed) :=
  s.entries.toList.filter fun e => e.packed?.map Packed.format = some format

/-- What is counted of an entry: its realization and its failed attempts. -/
theorem count_countAttempts (m : Metrics) {e : Entry Packed} (h : e.Settled) (format : String) :
    (countAttempts m e).containers.count format = m.containers.count format +
      if e.packed?.map Packed.format = some format then
        (if e.isRealized then 1 else 0) + e.failures
      else 0 := by
  cases e with
  | eof | selectDb | resizeDb | aux => rfl
  | keyValue fields values =>
    simp only [countAttempts, Entry.values?]
    split
    · rename_i packed hc
      have hp : (Entry.keyValue fields values).packed? = some packed := hc
      have ha := Deferred.Settled.attempts_eq h hc
      simp only [Metrics.countContainers, Tally.count_add, hp, Option.map_some, Option.some.injEq,
        eq_comm (a := format), ha]
      rfl
    · rename_i hc
      have hp : (Entry.keyValue fields values).packed? = none := hc
      simp [hp]

theorem count_foldl_countAttempts (l : List (Entry Packed)) (m : Metrics)
    (h : ∀ e ∈ l, e.Settled) (format : String) :
    let held := l.filter fun e => e.packed?.map Packed.format = some format
    (l.foldl countAttempts m).containers.count format =
      m.containers.count format + (held.countP Entry.isRealized + (held.map Entry.failures).sum) := by
  induction l generalizing m with
  | nil => rfl
  | cons e l ih =>
    have he := count_countAttempts m (h e List.mem_cons_self) format
    have hl := ih (countAttempts m e) fun e' he' => h e' (List.mem_cons_of_mem _ he')
    dsimp only at hl ⊢
    rw [List.foldl_cons, hl, he, List.filter_cons]
    by_cases hf : e.packed?.map Packed.format = some format
    · simp only [hf, decide_true, if_true, List.countP_cons, List.map_cons, List.sum_cons]
      omega
    · simp only [hf, decide_false, Bool.false_eq_true, if_false, Nat.add_zero]

/-- What the counts of containers say of a session in which so many attempts have failed. -/
structure Realizations (failed : Nat) (s : Session) : Prop where
  /-- What is counted in a form are the containers that have been realized and the failed attempts
  of the others. -/
  containers : ∀ format, s.metrics.containers.count format =
    (s.containersOf format).countP Entry.isRealized + ((s.containersOf format).map Entry.failures).sum
  /-- A container that can be decoded has no failed attempts. -/
  failures_of_decodes : ∀ e ∈ s.entries, ∀ packed elements, e.packed? = some packed →
    packed.decode = .ok elements → e.failures = 0
  /-- All failed attempts have been reported. -/
  failures : Entry.failuresIn s.entries = failed
  /-- As long as none has failed, what is counted are the containers that have been realized. -/
  exact : failed = 0 →
    ∀ format, s.metrics.containers.count format = (s.containersOf format).countP Entry.isRealized

theorem Tried.realizations (h : Tried failed s) (hc : s.tallies.containers = []) :
    Realizations failed s := by
  have hcount : ∀ format, s.metrics.containers.count format =
      (s.containersOf format).countP Entry.isRealized +
        ((s.containersOf format).map Entry.failures).sum := by
    intro format
    have hl := count_foldl_countAttempts s.entries.toList s.tallies
      (fun e he => h.settled e (Array.mem_toList_iff.mp he)) format
    rw [hc, Array.foldl_toList] at hl
    exact hl.trans (Nat.zero_add _)
  refine ⟨hcount, ?_, h.failures, fun hnone format => ?_⟩
  · intro e he packed elements hp hd
    have hsettled := h.settled e he
    cases e with
    | keyValue fields values => exact Deferred.Settled.failures_of_decodes hsettled hp hd
    | eof | selectDb | resizeDb | aux => cases hp
  · have hall : ∀ n ∈ s.entries.toList.map Entry.failures, n = 0 :=
      List.sum_eq_zero_iff_forall_eq_nat.mp (h.failures.trans hnone)
    have hheld : ((s.containersOf format).map Entry.failures).sum = 0 :=
      List.sum_eq_zero_iff_forall_eq_nat.mpr fun n hn =>
        hall n (List.map_subset _ (List.filter_subset_self _) hn)
    rw [hcount, hheld, Nat.add_zero]

/-- **Which containers are counted.** Whatever the source does and whatever is asked in between, the
containers counted in a form are those that have been realized, each one once, and the attempts to
decode one that have failed. -/
theorem containers_run (p : Profile) (source : Source) (ops : List Step) :
    Realizations (((start p source).transcript ops).map fun r => failedDecodings r.answer).sum
      ((start p source).run ops) := by
  have htried := (tried_start p source).run ops
  rw [Nat.zero_add] at htried
  exact htried.realizations ((accounted_start p source).run ops).containers

/-- A question after a run is asked of the entries that the run has left. -/
theorem entries_run_ask (s : Session) (ops : List Step) (q : Entry.Step) :
    (s.run (ops ++ [.ask q])).entries = (Entry.step (s.run ops).entries q).2 := by
  rw [run_append]
  rfl

/-- A snapshot of version 11 that ends behind its only key, `k`, a set in a listpack of no bytes. -/
def hollowSnapshot : Bytes :=
  [0x52, 0x45, 0x44, 0x49, 0x53, 0x30, 0x30, 0x31, 0x31, 20, 1, 0x6B, 0]

/-- A container that cannot be decoded is counted when its elements are asked for, though it is not
realized. -/
theorem exists_counted_unrealized : ¬ ∀ (p : Profile) (data : Bytes) (ops : List Step)
    (format : String), ((start p (.ofBytes data)).run ops).metrics.containers.count format =
      (((start p (.ofBytes data)).run ops).containersOf format).countP Entry.isRealized := by
  intro h
  let s : Session := (start .standard (.ofBytes hollowSnapshot)).run [.next, .ask (.values 0)]
  let fields : KeyFields := { key := [0x6B], kind := .setListpack }
  have hname : Wire.Text Profile.standard.textLimit [0x6B] [1, 0x6B] :=
    .raw (by decide) (.six (by decide))
  have hvalue : Wire.Value .standard (.container .setListpack []) [0] :=
    @Wire.Text.raw _ [] [0] (by decide) (.six (by decide))
  have hkey : Wire.RecordForm .standard 11 (.key [] [0x6B] (.container .setListpack []))
      (ValueKind.setListpack.code :: ([1, 0x6B] ++ [0])) := .key .nil rfl hname hvalue
  have hfirst : ((start .standard (.ofBytes hollowSnapshot)).run [.next]).entries =
      #[.keyValue fields (.capture (.listpack []))] :=
    @entries_run_next .standard 11 _ [] _ (.ofBytes hollowSnapshot) (by decide) (by decide)
      hkey.reads (.contents (by decide))
  have hafter : s.entries = #[.keyValue fields (.pending (.listpack []) 1)] := by
    refine (entries_run_ask _ [.next] (.values 0)).trans ?_
    rw [hfirst]
    rfl
  have hheld : s.containersOf "listpack" = [.keyValue fields (.pending (.listpack []) 1)] := by
    rw [containersOf, hafter]
    rfl
  have hcount := h .standard hollowSnapshot [.next, .ask (.values 0)] "listpack"
  have htrue := (((tried_start .standard (.ofBytes hollowSnapshot)).run
    [.next, .ask (.values 0)]).realizations
      ((accounted_start .standard (.ofBytes hollowSnapshot)).run
        [.next, .ask (.values 0)]).containers).containers "listpack"
  change s.metrics.containers.count "listpack" =
    (s.containersOf "listpack").countP Entry.isRealized at hcount
  change s.metrics.containers.count "listpack" = (s.containersOf "listpack").countP
    Entry.isRealized + ((s.containersOf "listpack").map Entry.failures).sum at htrue
  rw [hcount, hheld] at htrue
  exact absurd htrue (by decide)

end Session

end RedisDump
