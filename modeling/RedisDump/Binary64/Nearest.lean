import RedisDump.Arithmetic

/-!
# The double nearest to an integer

A double holds 53 significant bits, so an integer of more bits becomes the nearest multiple of
the power of two that leaves it 53 of them; of two multiples that are equally near, the one with
the even quotient. An integer that this takes to `2 ^ 1024` has no double.

Main statements: rounding moves a number by half a unit at most (`roundTo_le`, `le_roundTo`),
and an integer below `2 ^ 53` is its own double (`nearest?_of_lt`).
-/

namespace RedisDump.Binary64

/-- The number of significant bits of a double. -/
def precision : Nat := 53

/-- The finite doubles are smaller than the power of two with this exponent. -/
def exponentLimit : Nat := 1024

/-- The multiple of `unit` nearest to `n`; a number halfway between two goes to the one with the
even quotient. -/
def roundTo (unit n : Nat) : Nat :=
  let q := n / unit
  let r := n % unit
  if 2 * r < unit ∨ 2 * r = unit ∧ q % 2 = 0 then q * unit else (q + 1) * unit

/-- The weight of the last significant bit of `n` in a double. -/
def lastPlace (n : Nat) : Nat :=
  2 ^ (n.log2 + 1 - precision)

/-- The double nearest to an integer, if there is one. -/
def nearest? (n : Int) : Option Int :=
  let m := roundTo (lastPlace n.natAbs) n.natAbs
  if m < 2 ^ exponentLimit then some (if n < 0 then -m else m) else none

/-- Rounding up adds half a unit at most. -/
theorem roundTo_le (unit n : Nat) : 2 * roundTo unit n ≤ 2 * n + unit := by
  have hn := Nat.div_add_mod n unit
  unfold roundTo
  dsimp only
  split
  · rw [Nat.mul_comm (n / unit)]
    omega
  · rw [Nat.add_mul, Nat.one_mul, Nat.mul_comm (n / unit)]
    omega

/-- Rounding down takes away half a unit at most. -/
theorem le_roundTo {unit : Nat} (h : 0 < unit) (n : Nat) :
    2 * n ≤ 2 * roundTo unit n + unit := by
  have hn := Nat.div_add_mod n unit
  have hr := Nat.mod_lt n h
  unfold roundTo
  dsimp only
  split
  · rw [Nat.mul_comm (n / unit)]
    omega
  · rw [Nat.add_mul, Nat.one_mul, Nat.mul_comm (n / unit)]
    omega

/-- A number is its own multiple of one. -/
theorem roundTo_one (n : Nat) : roundTo 1 n = n := by
  simp [roundTo, Nat.mod_one]

/-- An integer below `2 ^ 53` is its own double. -/
theorem nearest?_of_lt {n : Int} (h : n.natAbs < 2 ^ precision) : nearest? n = some n := by
  have hlog : n.natAbs.log2 + 1 - precision = 0 := by
    by_cases h0 : n.natAbs = 0
    · simp [h0, precision]
    · have := (Nat.log2_lt h0).mpr h
      omega
  have hlt : n.natAbs < 2 ^ exponentLimit :=
    Nat.lt_trans h (Nat.pow_lt_pow_right (by decide) (by decide : precision < exponentLimit))
  unfold nearest? lastPlace
  rw [hlog, Nat.pow_zero, roundTo_one]
  dsimp only
  rw [if_pos hlt]
  congr 1
  split <;> omega

end RedisDump.Binary64
