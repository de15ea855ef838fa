import RedisDump.Proofs.Recognition

/-!
# Passing over bytes of an input

An input over any source *gives* bytes when reading one byte after the other succeeds with them;
what the source does after that is left open (`Input.Gives`). So it is told which bytes a reader has
passed over, and which form it recognises, on whatever input. From an input in memory a form that is
recognised is read (`Recognises.reads`).
-/

namespace RedisDump

/-- A byte that is handed out is handed out whatever the number of bytes that are still needed. -/
theorem Read.next_of_ok {needed : Nat} {b : UInt8} {i i' : Input} (h : next needed i = .ok b i')
    (needed' : Nat) : next needed' i = .ok b i' := by
  unfold next at h ⊢
  split at h
  · exact h
  · split at h
    · cases h
    · cases h
    · exact h

namespace Input

/-- Read byte by byte, the input gives `bs`, and is `after` then. -/
inductive Gives : Bytes → Input → Input → Prop where
  | nil (i : Input) : Gives [] i i
  | cons {b : UInt8} {bs : Bytes} {i mid after : Input} :
    Read.byte i = .ok b mid → Gives bs mid after → Gives (b :: bs) i after

theorem gives_nil_iff {i after : Input} : Gives [] i after ↔ after = i := by
  constructor
  · intro h
    cases h
    rfl
  · rintro rfl
    exact .nil _

theorem gives_cons_iff {b : UInt8} {bs : Bytes} {i after : Input} :
    Gives (b :: bs) i after ↔ ∃ mid, Read.byte i = .ok b mid ∧ Gives bs mid after := by
  constructor
  · intro h
    cases h with
    | cons hb h => exact ⟨_, hb, h⟩
  · rintro ⟨mid, hb, h⟩
    exact .cons hb h

/-- Bytes in two parts are given with an input between them. -/
theorem gives_append_iff {bs cs : Bytes} {i after : Input} :
    Gives (bs ++ cs) i after ↔ ∃ mid, Gives bs i mid ∧ Gives cs mid after := by
  induction bs generalizing i with
  | nil =>
    simp only [List.nil_append, gives_nil_iff, exists_eq_left]
  | cons b bs ih =>
    simp only [List.cons_append, gives_cons_iff, ih]
    constructor
    · rintro ⟨m, hb, mid, hm, hmid⟩
      exact ⟨mid, ⟨m, hb, hm⟩, hmid⟩
    · rintro ⟨mid, ⟨m, hb, hm⟩, hmid⟩
      exact ⟨m, hb, mid, hm, hmid⟩

/-- Bytes that are given are counted. -/
theorem Gives.consumed {bs : Bytes} {i after : Input} (h : Gives bs i after) :
    after.consumed = i.consumed + bs.length := by
  induction h with
  | nil => rfl
  | cons hb _ ih =>
    rw [ih, Read.consumed_next hb, List.length_cons]
    omega

/-- An input that holds bytes gives them. -/
theorem Holds.gives {bs rest : Bytes} {n : Nat} {i : Input} (h : Holds (bs ++ rest) n i) :
    ∃ after, Gives bs i after := by
  induction bs generalizing n i with
  | nil => exact ⟨i, .nil i⟩
  | cons b bs ih =>
    obtain ⟨mid, hmid, hholds⟩ := Read.next_of_holds_cons h 1
    obtain ⟨after, hgives⟩ := ih hholds
    exact ⟨after, .cons hmid hgives⟩

/-- The bytes that are not given are still held. -/
theorem Gives.holds {bs rest : Bytes} {n : Nat} {i after : Input} (hg : Gives bs i after)
    (h : Holds (bs ++ rest) n i) : Holds rest (n + bs.length) after := by
  induction hg generalizing n with
  | nil => exact h
  | @cons b bs i mid after hb _ ih =>
    obtain ⟨mid', hmid, hholds⟩ := Read.next_of_holds_cons h 1
    have hbyte : Read.byte i = .ok b mid' := hmid
    rw [hb] at hbyte
    cases hbyte
    have hafter := ih hholds
    rwa [Nat.add_assoc, Nat.add_comm 1] at hafter

end Input

instance : Passage Input where
  Passes := Input.Gives
  passes_nil_iff := Input.gives_nil_iff
  passes_append_iff := Input.gives_append_iff

/-- A form that is recognised is read from memory. -/
theorem Recognises.reads {α : Type} {r : Read α} {form : α → Bytes → Prop} (hr : Recognises r form)
    {a : α} {bs : Bytes} (h : form a bs) : Reads bs r a := by
  intro rest n i hi
  obtain ⟨after, hg⟩ := hi.gives
  exact ⟨after, (hr i a after).mpr ⟨bs, h, hg⟩, hg.holds hi⟩

namespace Read

theorem next_recognises (needed : Nat) : Recognises (next needed) Wire.Single := by
  intro i b i'
  constructor
  · intro h
    exact ⟨[b], rfl, .cons (next_of_ok h 1) (.nil i')⟩
  · rintro ⟨_, rfl, hg⟩
    obtain ⟨mid, hb, hmid⟩ := Input.gives_cons_iff.mp hg
    rw [Input.gives_nil_iff.mp hmid]
    exact next_of_ok hb needed

theorem byte_recognises : Recognises byte Wire.Single :=
  next_recognises 1

theorem bytes_recognises (n : Nat) : Recognises (bytes n) fun a bs => a = bs ∧ bs.length = n := by
  refine (Recognises.collect next_recognises n).congr fun a bs => ?_
  rw [Wire.Sequence.single_iff]
  constructor
  · rintro ⟨hn, rfl⟩
    exact ⟨rfl, hn⟩
  · rintro ⟨rfl, hn⟩
    exact ⟨hn, rfl⟩

theorem littleEndian_recognises (width : Nat) : Recognises (littleEndian width) fun n bs =>
    n < 256 ^ width ∧ bs = Bytes.leBytes width n :=
  (bytes_recognises width).leNat

theorem bigEndian_recognises (width : Nat) : Recognises (bigEndian width) fun n bs =>
    n < 256 ^ width ∧ bs = Bytes.beBytes width n :=
  (bytes_recognises width).beNat

end Read

end RedisDump
