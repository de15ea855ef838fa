import RedisDump.Deferred.Rehearsal
import RedisDump.Proofs.Answers
import RedisDump.Proofs.Outcome.Elements

/-!
# What a deferred list answers

A question needs the elements of a list or it does not, whatever state the list is in
(`Deferred.Step.needsElements`); one that needs them answers from them, after an attempt to decode
them where that is still to be done. So a list whose decoding fails a number of times and then gives
its elements is in one of two states (`Deferred.Reached`): pending with so many failures, or
realized by the attempt after the last of them. Except for the failures it answers as the list of
those elements does (`deferral_sound`).

A failure is told as it is by all questions but two (`Deferred.failure_cases`): a search takes an
error that says that an index is out of range for the end of the list, and a walk backwards changes
one that says that an iteration is over. An error that is neither is plain (`Deferred.Plain`).
-/

namespace RedisDump.Deferred

variable {δ ε : Type}

/-! ### Questions -/

/-- Whether a question is never a reason to decode: it is about the list itself, for its hash, or a
comparison with something that is no list. -/
def Step.isIdle : Step → Bool
  | isRealized | captured | describe | hash | equals .foreign | differs .foreign => true
  | get | alterCopy | size | isNonempty | item _ | slice _ | reversed | contains _ | position ..
  | count _ | equals (.elements _) | differs (.elements _) => false

/-- Whether a question needs the elements; the search of an empty range does not. -/
def Step.needsElements : Step → Bool
  | position _ start stop => !isVoidRange start stop
  | q => !q.isIdle

section

variable [Decodable δ ε]

variable (δ) in
/-- What a question raises when the elements that it needs cannot be decoded. -/
def Step.failure : Step → ε → Error ε
  | position _ start stop, e => searchFailure δ start stop e
  | reversed, e => walkFailure δ e
  | _, e => .decoding e

variable (δ) in
/-- An error that is told as it is by all questions. -/
structure Plain (e : ε) : Prop where
  endsSearch : @Decodable.endsSearch δ ε _ e = false
  leavesWalk : @Decodable.leavesWalk δ ε _ e = e

/-- An error that is not told as it is has ended a search, or has come out of an iteration. -/
theorem failure_cases (q : Step) (e : ε) :
    q.failure δ e = .decoding e ∨
      (q.failure δ e = .absent ∧ @Decodable.endsSearch δ ε _ e = true ∧
        ∃ value start stop, q = .position value start stop ∧ looksFirst start stop = true) ∨
      (q.failure δ e = .decoding (@Decodable.leavesWalk δ ε _ e) ∧ q = .reversed) := by
  cases q with
  | position value start stop =>
    rw [Step.failure, searchFailure]
    split
    · rename_i hends
      obtain ⟨hlooks, hends⟩ := Bool.and_eq_true_iff.mp hends
      exact .inr (.inl ⟨rfl, hends, value, start, stop, rfl, hlooks⟩)
    · exact .inl rfl
  | reversed => exact .inr (.inr ⟨rfl, rfl⟩)
  | _ => exact .inl rfl

theorem Plain.failure {e : ε} (h : Plain δ e) (q : Step) : q.failure δ e = .decoding e := by
  obtain htold | ⟨-, hends, -⟩ | ⟨htold, -⟩ := failure_cases (δ := δ) q e
  · exact htold
  · rw [h.endsSearch] at hends
    cases hends
  · rw [htold, h.leavesWalk]

/-- A question that does not need the elements leaves the list as it is, and does not fail for want
of them. -/
theorem step_of_not_needsElements {q : Step} (hq : q.needsElements = false) (d : Deferred δ) :
    (d.step q).2 = d ∧ ∀ e, (d.step q).1 ≠ .error (.decoding e) := by
  cases q with
  | isRealized | captured | describe | hash => exact ⟨rfl, by rintro e ⟨⟩⟩
  | get | alterCopy | size | isNonempty | item | slice | reversed | contains | count => cases hq
  | position value start stop =>
    have hvoid : isVoidRange start stop = true := by simpa [Step.needsElements] using hq
    rw [step, if_pos hvoid]
    exact ⟨rfl, by rintro e ⟨⟩⟩
  | equals other | differs other =>
    cases other with
    | foreign => exact ⟨rfl, by rintro e ⟨⟩⟩
    | elements values => cases hq

/-- What is answered without the elements, and not about the list itself, is answered the same by
all lists. -/
theorem step_fst_of_not_needsElements {q : Step} (hq : q.needsElements = false)
    (haside : q.isAside = false) (d d' : Deferred δ) : (d.step q).1 = (d'.step q).1 := by
  cases q with
  | isRealized | captured | describe => cases haside
  | hash => rfl
  | get | alterCopy | size | isNonempty | item | slice | reversed | contains | count => cases hq
  | position value start stop =>
    have hvoid : isVoidRange start stop = true := by simpa [Step.needsElements] using hq
    rw [step, step, if_pos hvoid, if_pos hvoid]
  | equals other | differs other =>
    cases other with
    | foreign => rfl
    | elements values => cases hq

/-- A question that needs the elements is answered from them, and they are not at fault then. -/
theorem step_of_needsElements {q : Step} (hq : q.needsElements = true) :
    ∃ answer : List Bytes → Except (Error ε) (Answer δ),
      (∀ xs e, answer xs ≠ .error (.decoding e)) ∧
        ∀ d : Deferred δ, d.step q = d.withElements answer (q.failure δ) := by
  cases q with
  | isRealized | captured | describe | hash => cases hq
  | get | alterCopy | size | isNonempty | reversed | contains | count =>
    refine ⟨_, ?_, fun _ => rfl⟩
    rintro xs e ⟨⟩
  | item i =>
    refine ⟨fun xs => itemAnswer xs i, fun xs e => ?_, fun _ => rfl⟩
    dsimp only [itemAnswer]
    split <;> rintro ⟨⟩
  | slice s =>
    refine ⟨fun xs => sliceAnswer xs s, fun xs e => ?_, fun _ => rfl⟩
    dsimp only [sliceAnswer]
    split <;> rintro ⟨⟩
  | position value start stop =>
    have hrange : ¬ isVoidRange start stop = true := by simpa [Step.needsElements] using hq
    refine ⟨fun xs => positionAnswer xs value start stop, fun xs e => ?_, fun d => ?_⟩
    · dsimp only [positionAnswer]
      split <;> rintro ⟨⟩
    · rw [step, if_neg hrange]
      rfl
  | equals other | differs other =>
    cases other with
    | foreign => cases hq
    | elements values =>
      refine ⟨_, ?_, fun _ => rfl⟩
      rintro xs e ⟨⟩

/-- The list after a sequence of questions. -/
def run (d : Deferred δ) : List Step → Deferred δ
  | [] => d
  | q :: qs => run (d.step q).2 qs

/-- The first `k` attempts to decode something fail, and the others give the elements `xs`. -/
structure SucceedsAfter (k : Nat) (c : δ) (xs : List Bytes) : Prop where
  fails : ∀ n < k, ∃ e, Decodable.attempt c n = .error e
  gives : ∀ n, k ≤ n → Decodable.attempt c n = .ok xs

/-- What can have become of a list that is decoded from `c`. -/
inductive Reached (k : Nat) (c : δ) (xs : List Bytes) : Deferred δ → Prop where
  /-- All attempts so far have failed. -/
  | pending {n : Nat} : n ≤ k → Reached k c xs (pending c n)
  /-- The attempt after the failures has succeeded. -/
  | realized : Reached k c xs (realized (some c) xs (k + 1))

variable {k : Nat} {c : δ} {xs : List Bytes} {d : Deferred δ}

/-- An attempt to decode a pending list fails as long as failures are due. -/
theorem force_pending_of_succeedsAfter (h : SucceedsAfter k c xs) {n : Nat} (hn : n ≤ k) :
    (n < k ∧ ∃ e, Decodable.attempt c n = .error e ∧
        (pending c n).force = (.error e, pending c (n + 1))) ∨
      (n = k ∧ (pending c n).force = (.ok xs, realized (some c) xs (k + 1))) := by
  rcases Nat.lt_or_eq_of_le hn with hlt | rfl
  · obtain ⟨e, he⟩ := h.fails n hlt
    exact .inl ⟨hlt, e, he, by simp only [force, he]⟩
  · exact .inr ⟨rfl, by simp only [force, h.gives n (Nat.le_refl _)]⟩

theorem Reached.force (hd : Reached k c xs d) (h : SucceedsAfter k c xs) :
    Reached k c xs d.force.2 := by
  cases hd with
  | pending hn =>
    rcases force_pending_of_succeedsAfter h hn with ⟨hlt, e, -, hf⟩ | ⟨-, hf⟩
    · rw [hf]
      exact .pending hlt
    · rw [hf]
      exact .realized
  | realized => exact .realized

theorem Reached.step (hd : Reached k c xs d) (h : SucceedsAfter k c xs) (q : Step) :
    Reached k c xs (d.step q).2 := by
  rcases step_snd d q with hq | hq
  · rwa [hq]
  · rw [hq]
    exact hd.force h

theorem Reached.run (hd : Reached k c xs d) (h : SucceedsAfter k c xs) (qs : List Step) :
    Reached k c xs (d.run qs) := by
  induction qs generalizing d with
  | nil => exact hd
  | cons q qs ih => exact ih (hd.step h q)

/-! ### Answers -/

/-- How a question to a list `d` whose decoding fails `k` times goes, beside the same question to a
list `known` of its elements. -/
structure Sound (k : Nat) (c : δ) (known d : Deferred δ) (q : Step) : Prop where
  /-- The answer is that of the known list, unless decoding fails, which is told as the question
  tells it, or the list itself is asked about. -/
  answer : (∃ e, Decodable.attempt c d.attempts = .error e ∧ d.isRealized = false ∧
      q.needsElements = true ∧ (d.step q).1 = .error (q.failure δ e)) ∨
    q.isAside = true ∨ (d.step q).1 = (known.step q).1
  /-- There is one attempt at most. -/
  attempts : d.attempts ≤ (d.step q).2.attempts ∧ (d.step q).2.attempts ≤ d.attempts + 1
  /-- There is one attempt at most after the failures. -/
  total : (d.step q).2.attempts ≤ k + 1
  /-- A list that is realized goes on to be that list. -/
  rests : d.isRealized = true → (d.step q).2 = d
  /-- A failure leaves the list pending. -/
  failure : (∃ e, (d.step q).1 = .error (.decoding e)) → (d.step q).2 = pending c (d.attempts + 1)
  /-- A pending list is decoded when its elements are needed, which succeeds after the failures. -/
  retries : d.isRealized = false → q.needsElements = true →
    (d.step q).2.attempts = d.attempts + 1 ∧ ((d.step q).2.isRealized = true ↔ d.attempts = k)
  /-- What does not need the elements leaves the list as it is. -/
  idle : q.isIdle = true → (d.step q).2 = d

end

/-- The failure to decode a container is plain. -/
theorem plain_packed (e : PackedError) : Plain Packed e :=
  ⟨rfl, rfl⟩

end RedisDump.Deferred
