/-!
# Numbers in messages

A number is written out in a message only if it has no more than so many digits. A message that
would name a longer one cannot be made, and the attempt to make it fails in its place.
-/

namespace RedisDump.Text

/-- The greatest number of digits that are written out. -/
def digitLimit : Nat := 4300

/-- An integer that can be written out, the sign apart. -/
def Writable (n : Int) : Prop :=
  n.natAbs < 10 ^ digitLimit

/-- The text of the error of a number that cannot be written out. -/
def tooManyDigits : String :=
  "Exceeds the limit (4300 digits) for integer string conversion; " ++
    "use sys.set_int_max_str_digits() to increase the limit"

theorem writable_of_lt {n : Int} (h : n.natAbs < 2 ^ 64) : Writable n :=
  calc n.natAbs < 2 ^ 64 := h
    _ ≤ 10 ^ 20 := by decide
    _ ≤ 10 ^ digitLimit := Nat.pow_le_pow_right (by decide) (by decide)

-- A number of ordinary size is recognised without the power.
instance (n : Int) : Decidable (Writable n) :=
  if h : n.natAbs < 2 ^ 64 then .isTrue (writable_of_lt h)
  else inferInstanceAs (Decidable (n.natAbs < 10 ^ digitLimit))

/-- What is no further from zero than a number that can be written out can be, too. -/
theorem Writable.of_natAbs_le {m n : Int} (h : Writable n) (hle : m.natAbs ≤ n.natAbs) :
    Writable m :=
  Nat.lt_of_le_of_lt hle h

end RedisDump.Text
