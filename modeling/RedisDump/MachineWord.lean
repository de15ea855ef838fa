import RedisDump.Arithmetic

/-!
# Machine words

The sizes and positions of things in memory are numbers of 64 bits with a sign. A number that
does not fit into them is refused before anything is done with it.
-/

namespace RedisDump.MachineWord

/-- Half the number of machine words; those below zero are as many as the others. -/
def half : Int := 2 ^ 63

/-- A number that fits into a machine word. -/
def Fits (n : Int) : Prop :=
  -half ≤ n ∧ n < half

instance (n : Int) : Decidable (Fits n) :=
  inferInstanceAs (Decidable (-half ≤ n ∧ n < half))

/-- The text of the error that a number raises which does not fit. -/
def tooWideMessage : String :=
  "cannot fit 'int' into an index-sized integer"

end RedisDump.MachineWord
