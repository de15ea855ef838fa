import RedisDump.Proofs.Delivery

/-!
# Readers and what they take

A reader *reads* a value from a byte string when it takes just these bytes from any input that
starts with them, whatever follows, and returns the value. Readers in turn read from the bytes of
each in turn, and a counted sequence from those of its elements (`Reads.collect`).
-/

namespace RedisDump

/-- The reader takes just the bytes `bs` and returns `a`, whatever follows. -/
def Reads {α : Type} (bs : Bytes) (r : Read α) (a : α) : Prop :=
  ∀ (rest : Bytes) (n : Nat) (i : Input), Input.Holds (bs ++ rest) n i →
    ∃ i', r i = .ok a i' ∧ Input.Holds rest (n + bs.length) i'

/-- The bytes of a sequence: those of its elements, each in one of the forms that `form` allows,
one after the other. -/
inductive Wire.Sequence {α : Type} (form : α → Bytes → Prop) : List α → Bytes → Prop where
  | nil : Sequence form [] []
  | cons {a : α} {as : List α} {bs cs : Bytes} :
    form a bs → Sequence form as cs → Sequence form (a :: as) (bs ++ cs)

/-- The form of the elements can be exchanged for one that holds of them as well. -/
theorem Wire.Sequence.mono {α : Type} {form form' : α → Bytes → Prop}
    (h : ∀ a bs, form a bs → form' a bs) {as : List α} {bs : Bytes} (hs : Sequence form as bs) :
    Sequence form' as bs := by
  induction hs with
  | nil => exact .nil
  | cons ha _ ih => exact .cons (h _ _ ha) ih

/-- Sequences in a form that is the writing of some values are what is written for lists of them. -/
theorem Wire.Sequence.iff_flatMap_of {α β : Type} {form : α → Bytes → Prop} {p : β → Prop} {f : β → α}
    {bytes : β → Bytes} (h : ∀ a bs, form a bs ↔ ∃ b, p b ∧ f b = a ∧ bytes b = bs) {as : List α}
    {bs : Bytes} : Sequence form as bs ↔
      ∃ xs : List β, (∀ x ∈ xs, p x) ∧ xs.map f = as ∧ xs.flatMap bytes = bs := by
  constructor
  · intro hs
    induction hs with
    | nil => exact ⟨[], nofun, rfl, rfl⟩
    | cons ha _ ih =>
      obtain ⟨x, hx, rfl, rfl⟩ := (h _ _).mp ha
      obtain ⟨xs, hxs, rfl, rfl⟩ := ih
      exact ⟨x :: xs, List.forall_mem_cons.mpr ⟨hx, hxs⟩, rfl, List.flatMap_cons⟩
  · rintro ⟨xs, hxs, rfl, rfl⟩
    induction xs with
    | nil => exact .nil
    | cons x xs ih =>
      obtain ⟨hx, hxs⟩ := List.forall_mem_cons.mp hxs
      rw [List.map_cons, List.flatMap_cons]
      exact .cons ((h _ _).mpr ⟨x, hx, rfl, rfl⟩) (ih hxs)

theorem Wire.Sequence.iff_flatMap {α β : Type} {form : α → Bytes → Prop} {f : β → α}
    {bytes : β → Bytes} (h : ∀ a bs, form a bs ↔ ∃ b, f b = a ∧ bytes b = bs) {as : List α}
    {bs : Bytes} : Sequence form as bs ↔
      ∃ xs : List β, xs.map f = as ∧ xs.flatMap bytes = bs := by
  have hform (a : α) (cs : Bytes) : form a cs ↔ ∃ b, True ∧ f b = a ∧ bytes b = cs := by
    simp only [h, true_and]
  simp only [iff_flatMap_of hform, implies_true, true_and]

/-- A byte by itself. -/
def Wire.Single (b : UInt8) (bs : Bytes) : Prop :=
  bs = [b]

theorem Wire.Sequence.single (bs : Bytes) : Wire.Sequence Wire.Single bs bs := by
  induction bs with
  | nil => exact .nil
  | cons b bs ih =>
    have hb : Wire.Single b [b] := rfl
    exact .cons hb ih

/-- Bytes by themselves are what they stand for. -/
theorem Wire.Sequence.single_iff {as bs : Bytes} :
    Wire.Sequence Wire.Single as bs ↔ as = bs := by
  constructor
  · intro h
    induction h with
    | nil => rfl
    | cons hb _ ih =>
      cases hb
      rw [ih, List.singleton_append]
  · rintro rfl
    exact .single as

namespace Reads

variable {α β : Type}

theorem pure (a : α) : Reads [] (Pure.pure a) a :=
  fun _ _ i h => ⟨i, rfl, h⟩

theorem next (b : UInt8) (needed : Nat) : Reads [b] (Read.next needed) b :=
  fun _ _ _ h => Read.next_of_holds_cons h needed

theorem byte (b : UInt8) : Reads [b] Read.byte b :=
  next b 1

theorem bind {bs cs : Bytes} {r : Read α} {f : α → Read β} {a : α} {b : β} (hr : Reads bs r a)
    (hf : Reads cs (f a) b) : Reads (bs ++ cs) (r >>= f) b := by
  intro rest n i h
  rw [List.append_assoc] at h
  obtain ⟨i₁, h₁, hi₁⟩ := hr _ n i h
  obtain ⟨i₂, h₂, hi₂⟩ := hf _ _ i₁ hi₁
  refine ⟨i₂, (bind_of_ok h₁).trans h₂, ?_⟩
  rwa [List.length_append, ← Nat.add_assoc]

/-- The second reader takes no byte. -/
theorem bindLeft {bs : Bytes} {r : Read α} {f : α → Read β} {a : α} {b : β} (hr : Reads bs r a)
    (hf : Reads [] (f a) b) : Reads bs (r >>= f) b := by
  have h := hr.bind hf
  rwa [List.append_nil] at h

/-- A reader that changes what another one returns. -/
theorem map {bs : Bytes} {r : Read α} {a : α} (hr : Reads bs r a) (f : α → β) :
    Reads bs (r >>= fun a => Pure.pure (f a)) (f a) :=
  hr.bindLeft (pure (f a))

/-- The first byte decides how to go on. -/
theorem cons {b : UInt8} {bs : Bytes} {f : UInt8 → Read β} {a : β} (hf : Reads bs (f b) a) :
    Reads (b :: bs) (Read.byte >>= f) a :=
  (byte b).bind hf

theorem collectInto {form : α → Bytes → Prop} {item : Nat → Read β} {f : α → β}
    (h : ∀ a bs k, form a bs → Reads bs (item k) (f a)) {as : List α} {bs : Bytes}
    (hs : Wire.Sequence form as bs) (done : List β) :
    Reads bs (collectInto item as.length done) (done.reverse ++ as.map f) := by
  induction hs generalizing done with
  | nil =>
    rw [List.map_nil, List.append_nil]
    exact pure _
  | @cons a as bs cs ha _ ih =>
    have hi := ih (f a :: done)
    rw [List.reverse_cons, List.append_assoc, List.singleton_append] at hi
    rw [List.length_cons, collectInto_succ, List.map_cons]
    exact (h a bs _ ha).bind hi

/-- A counted sequence is read from the bytes of its elements. -/
theorem collect {form : α → Bytes → Prop} {item : Nat → Read β} {f : α → β}
    (h : ∀ a bs k, form a bs → Reads bs (item k) (f a)) {as : List α} {bs : Bytes}
    (hs : Wire.Sequence form as bs) : Reads bs (collect item as.length) (as.map f) :=
  collectInto h hs []

/-- As many bytes as there are. -/
theorem bytes (bs : Bytes) : Reads bs (Read.bytes bs.length) bs := by
  have hitem : ∀ b cs k, Wire.Single b cs → Reads cs (Read.next k) (id b) := by
    rintro b _ k rfl
    exact next b k
  have h := collect hitem (Wire.Sequence.single bs)
  rwa [List.map_id] at h

end Reads

end RedisDump
