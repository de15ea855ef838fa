import RedisDump.Collect

/-!
# How a computation may end

A computation over a state returns a value or fails, and leaves a state behind in either case. What
is known of its ends has three parts: what the state stays in, what is returned, and with which
errors the computation fails (`Ensures`). Computations in turn end as each of them may, and a
counted sequence as its elements do.
-/

namespace RedisDump

variable {ε σ α β γ : Type} {P : σ → Prop} {Q : α → Prop} {E : ε → Prop}

/-- An end of a computation, with a state in `P`, and a value in `Q` or an error in `E`. -/
inductive Ended (P : σ → Prop) (Q : α → Prop) (E : ε → Prop) : EStateM.Result ε σ α → Prop where
  | ok {a : α} {s : σ} : Q a → P s → Ended P Q E (.ok a s)
  | error {e : ε} {s : σ} : E e → P s → Ended P Q E (.error e s)

/-- From a state in `P` the computation ends in `P`, with a value in `Q` or an error in `E`. -/
def Ensures (P : σ → Prop) (Q : α → Prop) (E : ε → Prop) (r : EStateM ε σ α) : Prop :=
  ∀ s, P s → Ended P Q E (r s)

/-- Whatever it is. -/
def Anything {α : Type} (_ : α) : Prop := True

namespace Ended

theorem of_ok {a : α} {s : σ} (h : Ended P Q E (.ok a s)) : Q a ∧ P s := by
  cases h with
  | ok hq hp => exact ⟨hq, hp⟩

theorem of_error {e : ε} {s : σ} (h : Ended (α := α) P Q E (.error e s)) : E e ∧ P s := by
  cases h with
  | error he hp => exact ⟨he, hp⟩

/-- More states may be allowed. -/
theorem keeps {P' : σ → Prop} {r : EStateM.Result ε σ α} (h : Ended P Q E r)
    (hp : ∀ s, P s → P' s) : Ended P' Q E r := by
  cases h with
  | ok hq hs => exact .ok hq (hp _ hs)
  | error he hs => exact .error he (hp _ hs)

end Ended

namespace Ensures

/-- Nothing is known of the ends of a computation. -/
theorem anything (r : EStateM ε σ α) : Ensures Anything Anything Anything r := by
  intro s _
  cases r s with
  | ok a s' => exact .ok trivial trivial
  | error e s' => exact .error trivial trivial

theorem pure {a : α} (h : Q a) : Ensures P Q E (Pure.pure a : EStateM ε σ α) :=
  fun _ hs => .ok h hs

theorem throw {e : ε} (h : E e) : Ensures P Q E (MonadExcept.throw e : EStateM ε σ α) :=
  fun _ hs => .error h hs

/-- More values and more errors may be allowed. -/
theorem mono {Q' : α → Prop} {E' : ε → Prop} {r : EStateM ε σ α} (h : Ensures P Q E r)
    (hq : ∀ a, Q a → Q' a) (he : ∀ e, E e → E' e) : Ensures P Q' E' r := by
  intro s hs
  have hr := h s hs
  generalize r s = x at hr
  cases hr with
  | ok ha hs' => exact .ok (hq _ ha) hs'
  | error he' hs' => exact .error (he _ he') hs'

theorem returns {Q' : α → Prop} {r : EStateM ε σ α} (h : Ensures P Q E r)
    (hq : ∀ a, Q a → Q' a) : Ensures P Q' E r :=
  h.mono hq fun _ he => he

theorem raises {E' : ε → Prop} {r : EStateM ε σ α} (h : Ensures P Q E r)
    (he : ∀ e, E e → E' e) : Ensures P Q E' r :=
  h.mono (fun _ ha => ha) he

theorem bind {Q' : β → Prop} {r : EStateM ε σ α} {f : α → EStateM ε σ β} (hr : Ensures P Q E r)
    (hf : ∀ a, Q a → Ensures P Q' E (f a)) : Ensures P Q' E (r >>= f) := by
  intro s hs
  have h := hr s hs
  change Ended P Q' E (EStateM.bind r f s)
  unfold EStateM.bind
  generalize r s = x at h
  cases h with
  | ok ha hs' => exact hf _ ha _ hs'
  | error he hs' => exact .error he hs'

/-- A computation whose value is changed by a function. -/
theorem map {Q' : β → Prop} {r : EStateM ε σ α} (hr : Ensures P Q E r) {f : α → β}
    (hf : ∀ a, Q a → Q' (f a)) : Ensures P Q' E (r >>= fun a => Pure.pure (f a)) :=
  hr.bind fun a ha => .pure (hf a ha)

theorem collectInto {item : Nat → EStateM ε σ α} {f : γ → α}
    (h : ∀ k, Ensures P (fun a => ∃ c, f c = a) E (item k)) (n : Nat) (done : List α) :
    Ensures P (fun as => ∃ cs : List γ, cs.length = n ∧ done.reverse ++ cs.map f = as) E
      (collectInto item n done) := by
  induction n generalizing done with
  | zero => exact .pure ⟨[], rfl, List.append_nil _⟩
  | succ n ih =>
    rw [collectInto_succ]
    refine (h (n + 1)).bind fun a ha => (ih (a :: done)).returns ?_
    obtain ⟨c, rfl⟩ := ha
    rintro as ⟨cs, hn, rfl⟩
    exact ⟨c :: cs, by rw [List.length_cons, hn], by simp⟩

/-- A counted sequence of values that `f` takes is a list of as many of them. -/
theorem collect {item : Nat → EStateM ε σ α} {f : γ → α}
    (h : ∀ k, Ensures P (fun a => ∃ c, f c = a) E (item k)) (n : Nat) :
    Ensures P (fun as => ∃ cs : List γ, cs.length = n ∧ cs.map f = as) E (collect item n) :=
  collectInto h n []

/-- A counted sequence has as many elements as are asked for. -/
theorem collect_length {item : Nat → EStateM ε σ α} (h : ∀ k, Ensures P Anything E (item k))
    (n : Nat) : Ensures P (fun as => as.length = n) E (RedisDump.collect item n) := by
  have hid : ∀ k, Ensures P (fun a => ∃ c, id c = a) E (item k) := fun k =>
    (h k).returns fun a _ => ⟨a, rfl⟩
  refine (collect hid n).returns ?_
  rintro _ ⟨cs, hn, rfl⟩
  rw [List.length_map, hn]

/-- What every element of a counted sequence is in, all of them are in. -/
theorem collect_forall {item : Nat → EStateM ε σ α} (h : ∀ k, Ensures P Q E (item k)) (n : Nat) :
    Ensures P (fun as => as.length = n ∧ ∀ a ∈ as, Q a) E (RedisDump.collect item n) := by
  have hval : ∀ k, Ensures P (fun a => ∃ c : Subtype Q, c.val = a) E (item k) := fun k =>
    (h k).returns fun a ha => ⟨⟨a, ha⟩, rfl⟩
  refine (collect hval n).returns ?_
  rintro _ ⟨cs, hn, rfl⟩
  refine ⟨by rw [List.length_map, hn], fun a ha => ?_⟩
  obtain ⟨c, -, rfl⟩ := List.mem_map.mp ha
  exact c.property

end Ensures

end RedisDump
