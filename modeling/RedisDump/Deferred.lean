import RedisDump.Packed

/-!
# Deferred lists

The elements of a packed value are decoded when they are first needed. A deferred list is
pending, with what was captured, until an attempt to decode it succeeds; from then on it is
realized and keeps its elements. A failed attempt leaves it pending, so that a later need tries
again. The attempts are counted.

What is captured, and how it is decoded, is left open (`Decodable`): a packed value decodes to
the same answer at every attempt. Which error a decoder raises is left open, too. All are passed
on as they are but for two: one that says that an index is out of range ends a search that looks
at the elements one by one, and one that says that an iteration is over does not come through
another iteration.
-/

namespace RedisDump

/-- Captured things that can be decoded. The answer may depend on the number of attempts made
before. -/
class Decodable (δ : Type) (ε : outParam Type) where
  /-- The answer of an attempt after `before` other ones. -/
  attempt : (captured : δ) → (before : Nat) → Except ε (List Bytes)
  /-- Whether an error says that an index is out of range. -/
  endsSearch : ε → Bool := fun _ => false
  /-- What becomes of an error that is raised within an iteration. -/
  leavesWalk : ε → ε := id

instance : Decodable Packed PackedError where
  attempt captured _ := captured.decode

/-- A list of elements that may still have to be decoded. -/
inductive Deferred (δ : Type) where
  /-- The elements are known, from the start or by the last of `attempts` attempts. -/
  | realized (captured : Option δ) (elements : List Bytes) (attempts : Nat)
  /-- The elements are still to be decoded, after `attempts` failed attempts. -/
  | pending (captured : δ) (attempts : Nat)
  deriving DecidableEq, Repr

namespace Deferred

variable {δ ε : Type}

/-- A list whose elements are known from the start. -/
def ofElements (elements : List Bytes) : Deferred δ :=
  .realized none elements 0

/-- A list that is decoded from what was captured. -/
def capture (captured : δ) : Deferred δ :=
  .pending captured 0

/-- Whether the elements are known. -/
def isRealized : Deferred δ → Bool
  | realized .. => true
  | pending .. => false

/-- What was captured. -/
def captured? : Deferred δ → Option δ
  | realized captured _ _ => captured
  | pending captured _ => some captured

/-- The number of attempts to decode the list. -/
def attempts : Deferred δ → Nat
  | realized _ _ attempts => attempts
  | pending _ attempts => attempts

/-- The elements, decoded if they are not known yet, and the list after that. -/
def force [Decodable δ ε] : Deferred δ → Except ε (List Bytes) × Deferred δ
  | realized captured elements attempts => (.ok elements, realized captured elements attempts)
  | pending captured attempts =>
    match Decodable.attempt captured attempts with
    | .ok elements => (.ok elements, realized (some captured) elements (attempts + 1))
    | .error e => (.error e, pending captured (attempts + 1))

/-- After a success the list is realized with the elements that it answered. -/
theorem force_of_ok [Decodable δ ε] {d d' : Deferred δ} {elements : List Bytes}
    (h : d.force = (.ok elements, d')) :
    d' = realized d.captured? elements d'.attempts := by
  cases d with
  | realized captured known attempts =>
    simp only [force, Prod.mk.injEq, Except.ok.injEq] at h
    obtain ⟨rfl, rfl⟩ := h
    rfl
  | pending captured attempts =>
    simp only [force] at h
    split at h
    · simp only [Prod.mk.injEq, Except.ok.injEq] at h
      obtain ⟨rfl, rfl⟩ := h
      rfl
    · simp at h

end Deferred

end RedisDump
