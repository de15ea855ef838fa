import RedisDump.Bytes

/-!
# Scores of sorted sets

Scores are handed out as text. The infinities and the value that is not a number have one
canonical text each, but packed sorted sets spell them in several ways; `canonicalise` brings
the scores of a flat member/score list to the canonical texts and leaves all else alone.
-/

namespace RedisDump

namespace Score

/-- The scores that are no finite number. -/
inductive Special where
  | positiveInfinity
  | negativeInfinity
  | notANumber
  deriving DecidableEq, Repr

/-- The canonical text of a special score. -/
def Special.text : Special → Bytes
  | .positiveInfinity => Bytes.ofAscii "inf"
  | .negativeInfinity => Bytes.ofAscii "-inf"
  | .notANumber => Bytes.ofAscii "nan"

/-- The accepted spellings of the special scores, in small letters. -/
def spellings : List (Bytes × Special) :=
  [ (Bytes.ofAscii "inf", .positiveInfinity),
    (Bytes.ofAscii "+inf", .positiveInfinity),
    (Bytes.ofAscii "infinity", .positiveInfinity),
    (Bytes.ofAscii "+infinity", .positiveInfinity),
    (Bytes.ofAscii "-inf", .negativeInfinity),
    (Bytes.ofAscii "-infinity", .negativeInfinity),
    (Bytes.ofAscii "nan", .notANumber),
    (Bytes.ofAscii "-nan", .notANumber) ]

/-- The special score that a text spells, in small or capital letters. -/
def special? (score : Bytes) : Option Special :=
  spellings.lookup score.lower

/-- A score text with the special scores in their canonical form. -/
def canonical (score : Bytes) : Bytes :=
  match special? score with
  | some s => s.text
  | none => score

/-- A flat list of members and scores, in turn, with canonical scores. -/
def canonicalise (values : List Bytes) : List Bytes :=
  values.mapIdx fun i v => if i % 2 = 1 then canonical v else v

@[simp] theorem length_canonicalise (values : List Bytes) :
    (canonicalise values).length = values.length := by
  simp [canonicalise]

end Score

end RedisDump
