import RedisDump.Proofs.Wire.Number
import RedisDump.Proofs.Wire.Reads

/-!
# What a computation recognises

A computation that passes over bytes *recognises* a form when its successes are just the passages
over bytes of this form, with the value that the form gives them (`Recognises`). What a passage is,
the state says (`Passage`): a place in a container is moved, an input hands bytes out. The forms of
computations in turn are put together from those of the parts, and that of a counted sequence from
the forms of its elements.
-/

namespace RedisDump

/-- The states of computations that pass over bytes. -/
class Passage (σ : Type) where
  /-- Between the two states lie just these bytes. -/
  Passes : Bytes → σ → σ → Prop
  /-- Nothing lies between a state and itself alone. -/
  passes_nil_iff {s s' : σ} : Passes [] s s' ↔ s' = s
  /-- A passage over two parts has a state between them. -/
  passes_append_iff {bs cs : Bytes} {s s'' : σ} :
    Passes (bs ++ cs) s s'' ↔ ∃ s', Passes bs s s' ∧ Passes cs s' s''

open Passage

variable {ε σ α β : Type} [Passage σ]

/-- The successes of the computation are the passages over bytes of the form. -/
def Recognises (r : EStateM ε σ α) (form : α → Bytes → Prop) : Prop :=
  ∀ s a s', r s = .ok a s' ↔ ∃ bs, form a bs ∧ Passes bs s s'

namespace Recognises

theorem congr {r : EStateM ε σ α} {form form' : α → Bytes → Prop} (hr : Recognises r form)
    (h : ∀ a bs, form a bs ↔ form' a bs) : Recognises r form' := by
  intro s a s'
  simp only [hr s a s', h]

theorem pure (a : α) : Recognises (Pure.pure a : EStateM ε σ α) fun b bs => b = a ∧ bs = [] := by
  intro s b s'
  have hpure : (Pure.pure a : EStateM ε σ α) s = .ok a s := rfl
  rw [hpure]
  constructor
  · intro h
    cases h
    exact ⟨[], ⟨rfl, rfl⟩, passes_nil_iff.mpr rfl⟩
  · rintro ⟨_, ⟨rfl, rfl⟩, hs⟩
    rw [passes_nil_iff.mp hs]

/-- A computation that never succeeds. -/
theorem never {r : EStateM ε σ α} (h : ∀ s a s', r s ≠ .ok a s') :
    Recognises r fun _ _ => False := by
  intro s a s'
  constructor
  · intro hr
    exact absurd hr (h s a s')
  · rintro ⟨_, h, -⟩
    exact h.elim

theorem throw (e : ε) : Recognises (MonadExcept.throw e : EStateM ε σ α) fun _ _ => False := by
  refine never fun s a s' h => ?_
  have herror : EStateM.Result.error e s = .ok a s' := h
  cases herror

theorem bind {r : EStateM ε σ α} {k : α → EStateM ε σ β} {form : α → Bytes → Prop}
    {next : α → β → Bytes → Prop} (hr : Recognises r form) (hk : ∀ a, Recognises (k a) (next a)) :
    Recognises (r >>= k) fun b bs => ∃ a cs ds, form a cs ∧ next a b ds ∧ bs = cs ++ ds := by
  intro s b s'
  constructor
  · intro h
    obtain ⟨a, s₁, h₁, h₂⟩ := bind_eq_ok h
    obtain ⟨cs, hc, hp⟩ := (hr _ _ _).mp h₁
    obtain ⟨ds, hd, hp'⟩ := (hk a _ _ _).mp h₂
    exact ⟨cs ++ ds, ⟨a, cs, ds, hc, hd, rfl⟩, passes_append_iff.mpr ⟨s₁, hp, hp'⟩⟩
  · rintro ⟨_, ⟨a, cs, ds, hc, hd, rfl⟩, hp⟩
    obtain ⟨s₁, hp₁, hp₂⟩ := passes_append_iff.mp hp
    rw [bind_of_ok ((hr _ _ _).mpr ⟨cs, hc, hp₁⟩)]
    exact (hk a _ _ _).mpr ⟨ds, hd, hp₂⟩

/-- A computation that passes over nothing decides whether to go on. -/
theorem guarded {r : EStateM ε σ Unit} {k : EStateM ε σ β} {p : Prop} {form : β → Bytes → Prop}
    (hr : Recognises r fun _ bs => p ∧ bs = []) (hk : Recognises k form) :
    Recognises (r >>= fun _ => k) fun b bs => p ∧ form b bs := by
  refine (hr.bind fun _ => hk).congr fun b bs => ?_
  constructor
  · rintro ⟨_, _, _, ⟨hp, rfl⟩, h, rfl⟩
    exact ⟨hp, h⟩
  · rintro ⟨hp, h⟩
    exact ⟨(), [], bs, ⟨hp, rfl⟩, h, rfl⟩

/-- What has been passed over is judged without going on. -/
theorem judged {r : EStateM ε σ α} {k : α → EStateM ε σ β} {form : α → Bytes → Prop}
    {p : α → β → Prop} (hr : Recognises r form)
    (hk : ∀ a, Recognises (k a) fun b bs => p a b ∧ bs = []) :
    Recognises (r >>= k) fun b bs => ∃ a, form a bs ∧ p a b := by
  refine (hr.bind hk).congr fun b bs => ?_
  constructor
  · rintro ⟨a, cs, _, h, ⟨hp, rfl⟩, rfl⟩
    exact ⟨a, by rwa [List.append_nil], hp⟩
  · rintro ⟨a, h, hp⟩
    exact ⟨a, bs, [], h, ⟨hp, rfl⟩, (List.append_nil bs).symm⟩

/-- A computation that changes what another one returns. -/
theorem map {r : EStateM ε σ α} {form : α → Bytes → Prop} (hr : Recognises r form) (f : α → β) :
    Recognises (r >>= fun a => Pure.pure (f a)) fun b bs => ∃ a, form a bs ∧ b = f a :=
  hr.judged fun a => pure (f a)

/-- The first byte decides how to go on. -/
theorem bindByte {byte : EStateM ε σ UInt8} (hb : Recognises byte Wire.Single)
    {k : UInt8 → EStateM ε σ β} {next : UInt8 → β → Bytes → Prop}
    (hk : ∀ b, Recognises (k b) (next b)) :
    Recognises (byte >>= k) fun a bs => ∃ b cs, bs = b :: cs ∧ next b a cs := by
  refine (hb.bind hk).congr fun a bs => ?_
  constructor
  · rintro ⟨b, _, cs, rfl, h, rfl⟩
    exact ⟨b, cs, rfl, h⟩
  · rintro ⟨b, cs, rfl, h⟩
    exact ⟨b, [b], cs, rfl, h, rfl⟩

/-- A form of at least one byte is recognised by what follows each first byte. -/
theorem ofFirst {byte : EStateM ε σ UInt8} (hb : Recognises byte Wire.Single)
    {k : UInt8 → EStateM ε σ β} {form : β → Bytes → Prop}
    (hne : ∀ {a bs}, form a bs → ∃ b cs, bs = b :: cs)
    (hk : ∀ b, Recognises (k b) fun a cs => form a (b :: cs)) : Recognises (byte >>= k) form := by
  refine (hb.bindByte hk).congr fun a bs => ?_
  constructor
  · rintro ⟨b, cs, rfl, h⟩
    exact h
  · intro h
    obtain ⟨b, cs, rfl⟩ := hne h
    exact ⟨b, cs, rfl, h⟩

theorem collectInto {item : Nat → EStateM ε σ α} {form : α → Bytes → Prop}
    (h : ∀ k, Recognises (item k) form) (n : Nat) (done : List α) :
    Recognises (collectInto item n done) fun as bs =>
      ∃ xs, as = done.reverse ++ xs ∧ xs.length = n ∧ Wire.Sequence form xs bs := by
  induction n generalizing done with
  | zero =>
    refine (pure done.reverse).congr fun as bs => ?_
    constructor
    · rintro ⟨rfl, rfl⟩
      exact ⟨[], (List.append_nil _).symm, rfl, .nil⟩
    · rintro ⟨xs, rfl, hlen, hs⟩
      rw [List.length_eq_zero_iff] at hlen
      subst hlen
      cases hs
      exact ⟨List.append_nil _, rfl⟩
  | succ n ih =>
    rw [collectInto_succ]
    refine ((h (n + 1)).bind fun a => ih (a :: done)).congr fun as bs => ?_
    constructor
    · rintro ⟨a, cs, ds, ha, ⟨xs, rfl, hlen, hs⟩, rfl⟩
      refine ⟨a :: xs, ?_, congrArg (· + 1) hlen, .cons ha hs⟩
      rw [List.reverse_cons, List.append_assoc, List.singleton_append]
    · rintro ⟨xs, rfl, hlen, hs⟩
      cases hs with
      | nil => cases hlen
      | @cons a xs cs ds ha hs =>
        refine ⟨a, cs, ds, ha, ⟨xs, ?_, Nat.succ.inj hlen, hs⟩, rfl⟩
        rw [List.reverse_cons, List.append_assoc, List.singleton_append]

/-- A counted sequence is recognised element by element. -/
theorem collect {item : Nat → EStateM ε σ α} {form : α → Bytes → Prop}
    (h : ∀ k, Recognises (item k) form) (n : Nat) :
    Recognises (collect item n) fun as bs => as.length = n ∧ Wire.Sequence form as bs := by
  refine (collectInto h n []).congr fun as bs => ?_
  constructor
  · rintro ⟨xs, rfl, hlen, hs⟩
    exact ⟨hlen, hs⟩
  · rintro ⟨hlen, hs⟩
    exact ⟨as, rfl, hlen, hs⟩

/-! ### Numbers in as many bytes as are taken -/

section Numbers

variable {r : EStateM ε σ Bytes} {width : Nat}

theorem leNat (hr : Recognises r fun a bs => a = bs ∧ bs.length = width) :
    Recognises (r >>= fun a => Pure.pure a.leNat) fun n bs =>
      n < 256 ^ width ∧ bs = Bytes.leBytes width n := by
  refine (hr.map Bytes.leNat).congr fun n bs => ?_
  constructor
  · rintro ⟨_, ⟨rfl, rfl⟩, rfl⟩
    exact ⟨Bytes.leNat_lt _, (Bytes.leBytes_leNat _).symm⟩
  · rintro ⟨hn, rfl⟩
    exact ⟨_, ⟨rfl, Bytes.length_leBytes ..⟩, (Bytes.leNat_leBytes hn).symm⟩

theorem beNat (hr : Recognises r fun a bs => a = bs ∧ bs.length = width) :
    Recognises (r >>= fun a => Pure.pure a.beNat) fun n bs =>
      n < 256 ^ width ∧ bs = Bytes.beBytes width n := by
  refine (hr.map Bytes.beNat).congr fun n bs => ?_
  constructor
  · rintro ⟨_, ⟨rfl, rfl⟩, rfl⟩
    exact ⟨Bytes.beNat_lt _, (Bytes.beBytes_beNat _).symm⟩
  · rintro ⟨hn, rfl⟩
    exact ⟨_, ⟨rfl, Bytes.length_beBytes ..⟩, (Bytes.beNat_beBytes hn).symm⟩

theorem leInt (hw : 0 < width) (hr : Recognises r fun a bs => a = bs ∧ bs.length = width) :
    Recognises (r >>= fun a => Pure.pure a.leInt) fun z bs =>
      Bytes.FitsSigned width z ∧ bs = Bytes.signedBytes width z := by
  refine (hr.map Bytes.leInt).congr fun z bs => ?_
  constructor
  · rintro ⟨_, ⟨rfl, rfl⟩, rfl⟩
    have hne := List.length_pos_iff.mp hw
    exact ⟨Bytes.fitsSigned_leInt hne, (Bytes.signedBytes_leInt hne).symm⟩
  · rintro ⟨hz, rfl⟩
    exact ⟨_, ⟨rfl, Bytes.length_signedBytes ..⟩, (Bytes.leInt_signedBytes hw hz).symm⟩

end Numbers

end Recognises

end RedisDump
