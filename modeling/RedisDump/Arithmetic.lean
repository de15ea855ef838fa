/-!
# Arithmetic

Powers of numbers, and the zero that an empty list sums to, are those of the core library, whichever
other instances are in scope. Programs are built on that library alone, so that a number written
with a power is the same one for the programs and for what is proved about them.
-/

attribute [instance (2000)] instPowNat Zero.ofOfNat0

attribute [default_instance (20000)] instPowNat
