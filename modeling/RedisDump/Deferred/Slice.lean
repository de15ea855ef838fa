import RedisDump.Bytes
import RedisDump.Position

/-!
# Ranges and slices of a list

A range is a start and a stop, a slice a start, a stop and a step, each of which may be left
out; a negative step walks backwards. The starts and stops of slices that lie outside the list
are moved to its nearest end, so a slice is never out of range.
-/

namespace RedisDump

/-- The first position of a value among those from `start` on and, where there is a stop,
before it. -/
def positionOf? (values : List Bytes) (value : Bytes) (start : Int) (stop : Option Int) :
    Option Nat :=
  let inRange (i : Nat) : Bool :=
    decide (start ≤ i) && match stop with
      | some stop => decide ((i : Int) < stop)
      | none => true
  (values.zipIdx.find? fun p => inRange p.2 && p.1 == value).map Prod.snd

/-- A choice of every `step`-th position from a start to a stop. -/
structure Slice where
  start? : Option Int
  stop? : Option Int
  step? : Option Int
  deriving DecidableEq, Repr

namespace Slice

/-- The distance of two neighbouring positions. -/
def step (s : Slice) : Int :=
  s.step?.getD 1

/-- A position in a list of `length` elements, moved into the range from `least` to
`greatest`. -/
def clip (least greatest : Int) (length : Nat) (i : Int) : Int :=
  let place := Position.fromStart length i
  if place < least then least else if greatest < place then greatest else place

/-- The start and the stop in a list of `length` elements. Walking forwards they lie between 0
and the length, walking backwards between -1 and the last position. -/
def bounds (s : Slice) (length : Nat) : Int × Int :=
  if s.step < 0 then
    let last := (length : Int) - 1
    ((s.start?.map (clip (-1) last length)).getD last,
      (s.stop?.map (clip (-1) last length)).getD (-1))
  else
    ((s.start?.map (clip 0 length length)).getD 0,
      (s.stop?.map (clip 0 length length)).getD length)

/-- The number of positions from `start` on and before `stop`. -/
def count (start stop step : Int) : Nat :=
  if 0 < step then ((stop - start + step - 1) / step).toNat
  else ((start - stop - step - 1) / (-step)).toNat

/-- The chosen elements, or nothing when the step is zero. -/
def choose? (s : Slice) (values : List Bytes) : Option (List Bytes) :=
  if s.step = 0 then none
  else
    let (start, stop) := s.bounds values.length
    let elements := values.toArray
    some ((List.range (count start stop s.step)).filterMap fun (k : Nat) =>
      elements[(start + k * s.step).toNat]?)

end Slice

end RedisDump
