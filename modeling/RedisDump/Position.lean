import RedisDump.MachineWord

/-!
# Positions in a row

A position names an element of a row by its place from 0 on or, when it is negative, by its
place from the end, the last element being at -1.
-/

namespace RedisDump.Position

/-- Why a position names no element. -/
inductive Error where
  /-- The row has no element there. -/
  | outOfRange
  /-- The position does not fit into a machine word. -/
  | tooWide
  deriving DecidableEq, Repr

/-- The text of an error, for a row of the given sort. -/
def Error.message (sort : String) : Error → String
  | .outOfRange => sort ++ " index out of range"
  | .tooWide => MachineWord.tooWideMessage

/-- A position counted from the start of a row of `length` elements; it may still lie outside the
row. -/
def fromStart (length : Nat) (i : Int) : Int :=
  if i < 0 then i + length else i

/-- The place in a row of `length` elements that a position names. -/
def place (length : Nat) (i : Int) : Except Error (Fin length) :=
  if ¬ MachineWord.Fits i then .error .tooWide
  else if _h : 0 ≤ fromStart length i ∧ fromStart length i < length then
    .ok ⟨(fromStart length i).toNat, by omega⟩
  else .error .outOfRange

/-- A place is the position counted from the start. -/
theorem val_of_place_eq_ok {length : Nat} {i : Int} {p : Fin length}
    (h : place length i = .ok p) : (p.val : Int) = fromStart length i := by
  unfold place at h
  split at h
  · cases h
  · split at h
    · cases h
      simp only
      omega
    · cases h

end RedisDump.Position
