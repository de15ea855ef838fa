/-!
# Repeated steps

A counted sequence of elements is read by running the reader of one element so many times. The
reader is told how many elements are still to come, itself included. The first failure ends the
sequence and keeps the state in which it happened.

A reader of a state with a size is *steady* when a success never enlarges the state and *eager*
when every success makes it smaller; an eager reader can be repeated without a count.
-/

namespace RedisDump

variable {ε σ α β : Type}

/-- Runs `item` with `n`, `n - 1`, ..., 1 and puts the results behind those in `done`, which is
in reverse order. -/
@[specialize] def collectInto (item : Nat → EStateM ε σ α) :
    (n : Nat) → (done : List α) → EStateM ε σ (List α)
  | 0, done => fun s => .ok done.reverse s
  | n + 1, done => fun s =>
    match item (n + 1) s with
    | .ok a s => collectInto item n (a :: done) s
    | .error e s => .error e s

/-- Runs `item` with `n`, `n - 1`, ..., 1 and returns the results in order. -/
@[inline] def collect (item : Nat → EStateM ε σ α) (n : Nat) : EStateM ε σ (List α) :=
  collectInto item n []

/-- A counted sequence is its first element followed by the rest. -/
theorem collectInto_succ (item : Nat → EStateM ε σ α) (n : Nat) (done : List α) :
    collectInto item (n + 1) done = item (n + 1) >>= fun a => collectInto item n (a :: done) := by
  funext s
  change (match item (n + 1) s with
    | .ok a s => collectInto item n (a :: done) s
    | .error e s => .error e s) = EStateM.bind _ _ s
  unfold EStateM.bind
  cases item (n + 1) s <;> rfl

/-- A reader that never leaves more than it found. -/
def Steady (size : σ → Nat) (r : EStateM ε σ α) : Prop :=
  ∀ s a s', r s = .ok a s' → size s' ≤ size s

/-- A reader that always leaves less than it found. -/
def Eager (size : σ → Nat) (r : EStateM ε σ α) : Prop :=
  ∀ s a s', r s = .ok a s' → size s' < size s

variable {size : σ → Nat}

theorem Eager.steady {r : EStateM ε σ α} (h : Eager size r) : Steady size r :=
  fun s a s' hr => Nat.le_of_lt (h s a s' hr)

theorem Steady.pure (a : α) : Steady size (Pure.pure a : EStateM ε σ α) := by
  intro s b s' h
  cases h
  exact Nat.le_refl _

theorem Eager.throw (e : ε) : Eager size (MonadExcept.throw e : EStateM ε σ α) := by
  intro s b s' h
  cases h

/-- Two readers in turn fail where the first one does. -/
theorem bind_of_error {r : EStateM ε σ α} {f : α → EStateM ε σ β} {s s' : σ} {e : ε}
    (h : r s = .error e s') : (r >>= f) s = .error e s' := by
  change EStateM.bind r f s = _
  simp only [EStateM.bind, h]

/-- Two readers in turn go on where the first one succeeds. -/
theorem bind_of_ok {r : EStateM ε σ α} {f : α → EStateM ε σ β} {s s' : σ} {a : α}
    (h : r s = .ok a s') : (r >>= f) s = f a s' := by
  change EStateM.bind r f s = _
  simp only [EStateM.bind, h]

/-- A success of two readers in turn is a success of each. -/
theorem bind_eq_ok {r : EStateM ε σ α} {f : α → EStateM ε σ β} {s s' : σ} {b : β}
    (h : (r >>= f) s = .ok b s') : ∃ a s₁, r s = .ok a s₁ ∧ f a s₁ = .ok b s' := by
  change EStateM.bind r f s = _ at h
  unfold EStateM.bind at h
  split at h
  · exact ⟨_, _, ‹_›, h⟩
  · cases h

theorem Steady.bind {r : EStateM ε σ α} {f : α → EStateM ε σ β} (hr : Steady size r)
    (hf : ∀ a, Steady size (f a)) : Steady size (r >>= f) := by
  intro s b s' h
  obtain ⟨a, s₁, h₁, h₂⟩ := bind_eq_ok h
  exact Nat.le_trans (hf a _ _ _ h₂) (hr _ _ _ h₁)

theorem Eager.bind {r : EStateM ε σ α} {f : α → EStateM ε σ β} (hr : Eager size r)
    (hf : ∀ a, Steady size (f a)) : Eager size (r >>= f) := by
  intro s b s' h
  obtain ⟨a, s₁, h₁, h₂⟩ := bind_eq_ok h
  exact Nat.lt_of_le_of_lt (hf a _ _ _ h₂) (hr _ _ _ h₁)

theorem Steady.map {r : EStateM ε σ α} (f : α → β) (hr : Steady size r) :
    Steady size (f <$> r) := by
  have h : f <$> r = r >>= fun a => Pure.pure (f a) := rfl
  rw [h]
  exact hr.bind fun a => Steady.pure (f a)

theorem Steady.collectInto {item : Nat → EStateM ε σ α} (h : ∀ n, Steady size (item n)) (n : Nat)
    (done : List α) : Steady size (collectInto item n done) := by
  induction n generalizing done with
  | zero =>
    intro s a s' hr
    cases hr
    exact Nat.le_refl _
  | succ n ih =>
    intro s a s' hr
    unfold RedisDump.collectInto at hr
    split at hr
    · exact Nat.le_trans (ih _ _ _ _ hr) (h _ _ _ _ ‹_›)
    · cases hr

/-- A counted sequence of steady readers is steady. -/
theorem Steady.collect {item : Nat → EStateM ε σ α} (h : ∀ n, Steady size (item n)) (n : Nat) :
    Steady size (collect item n) :=
  Steady.collectInto h n []

end RedisDump
