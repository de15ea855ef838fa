import RedisDump.Proofs.Outcome.Reading
import RedisDump.Proofs.Questions

/-!
# What questions leave of an entry

A question to a delivered entry may decode its elements and changes nothing else. A packed value
gives the same answer at every attempt, so an entry goes on to resemble what was read: the same
fields, the same captured value and the same elements or error (`Entry.Resembles`).
-/

namespace RedisDump

namespace Deferred

/-- Two lists with the same captured value and the same answer when they are decoded. -/
structure SameAnswer (d d' : Deferred Packed) : Prop where
  captured : d.captured? = d'.captured?
  answer : d.force.1 = d'.force.1

theorem SameAnswer.refl (d : Deferred Packed) : SameAnswer d d :=
  ⟨rfl, rfl⟩

/-- The attempts made before are not looked at when a packed value is decoded. -/
theorem force_pending (packed : Packed) (attempts : Nat) :
    (pending packed attempts).force =
      (packed.decode, match packed.decode with
        | .ok elements => realized (some packed) elements (attempts + 1)
        | .error _ => pending packed (attempts + 1)) := by
  have ha : Decodable.attempt packed attempts = packed.decode := rfl
  simp only [force, ha]
  cases packed.decode <;> rfl

/-- A packed value is decoded to the same answer again, and stays captured. -/
theorem sameAnswer_force (d : Deferred Packed) : SameAnswer d.force.2 d := by
  cases d with
  | realized captured elements attempts => exact .refl _
  | pending packed attempts =>
    rw [force_pending]
    cases hd : packed.decode with
    | ok elements => exact ⟨rfl, by rw [force_pending, hd]; rfl⟩
    | error e => exact ⟨rfl, by rw [force_pending, force_pending]⟩

theorem SameAnswer.force {d d' : Deferred Packed} (h : SameAnswer d d') :
    SameAnswer d.force.2 d' :=
  have hf := sameAnswer_force d
  ⟨hf.captured.trans h.captured, hf.answer.trans h.answer⟩

/-- An answer of a list is what its captured value is decoded to, or its known elements where
nothing was captured. -/
theorem SameAnswer.of_capture {d : Deferred Packed} {packed : Packed}
    (h : SameAnswer d (.capture packed)) :
    d.captured? = some packed ∧ d.force.1 = packed.decode :=
  ⟨h.captured, h.answer.trans (congrArg Prod.fst (force_pending packed 0))⟩

end Deferred

namespace Entry

/-! ### What was read -/

/-- An entry that differs from another one at most in how far its elements have been decoded. -/
inductive Resembles : Entry Packed → Entry Packed → Prop where
  | refl (e : Entry Packed) : Resembles e e
  | keyValue {fields : KeyFields} {values values' : Deferred Packed} : values.SameAnswer values' →
    Resembles (.keyValue fields values) (.keyValue fields values')

theorem Resembles.force {fields : KeyFields} {values : Deferred Packed} {e : Entry Packed}
    (h : Resembles (.keyValue fields values) e) :
    Resembles (.keyValue fields values.force.2) e := by
  cases h with
  | refl => exact .keyValue (Deferred.sameAnswer_force _)
  | keyValue hv => exact .keyValue hv.force

/-- An entry that resembles one read in a snapshot of a version that the profile accepts. -/
def Genuine (p : Profile) (e : Entry Packed) : Prop :=
  ∃ version e₀, p.minVersion ≤ version ∧ version ≤ p.maxVersion ∧ AsRead p version e₀ ∧
    Resembles e e₀

theorem Genuine.force {p : Profile} (fields : KeyFields) (values : Deferred Packed)
    (h : Genuine p (.keyValue fields values)) : Genuine p (.keyValue fields values.force.2) := by
  obtain ⟨version, e₀, hmin, hmax, hread, hr⟩ := h
  exact ⟨version, e₀, hmin, hmax, hread, hr.force⟩

end Entry

end RedisDump
