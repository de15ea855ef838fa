import RedisDump.Proofs.Pairing
import RedisDump.Score

/-!
# Spellings of scores

A special score may be spelled in eight ways, in capital or small letters: a word, for the two
infinities a short or a long one, and a sign in front of it (`Score.Spells`). These are just the
texts that the canonical form of a score replaces (`Score.special?_eq_some_iff`), so a flat list of
members and scores has the scores of its canonical form whatever their spelling.
-/

namespace RedisDump

namespace Score

/-- The words for infinity, in small letters. -/
def infinityWords : List Bytes :=
  [Bytes.ofAscii "inf", Bytes.ofAscii "infinity"]

/-- Every word behind every sign. -/
def signed (signs words : List Bytes) : List Bytes :=
  signs.flatMap fun sign => words.map fun word => sign ++ word

/-- The spellings of a special score in small letters. Only an infinity may have a plus sign. -/
def Special.spellings : Special → List Bytes
  | .positiveInfinity => signed [[], Bytes.ofAscii "+"] infinityWords
  | .negativeInfinity => signed [Bytes.ofAscii "-"] infinityWords
  | .notANumber => signed [[], Bytes.ofAscii "-"] [Bytes.ofAscii "nan"]

/-- The texts that spell a special score. -/
def Spells (x : Special) (text : Bytes) : Prop :=
  text.lower ∈ x.spellings

instance (x : Special) (text : Bytes) : Decidable (Spells x text) :=
  inferInstanceAs (Decidable (text.lower ∈ x.spellings))

/-- A text is looked up just as the special score that it spells. -/
theorem special?_eq_some_iff {text : Bytes} {x : Special} :
    special? text = some x ↔ Spells x text := by
  constructor
  · intro h
    have hall : ∀ p ∈ spellings, p.1 ∈ p.2.spellings := by decide
    obtain ⟨before, after, hsplit, -⟩ := List.lookup_eq_some_iff.mp h
    have hmem : (text.lower, x) ∈ spellings := by
      rw [hsplit]
      exact List.mem_append_right _ List.mem_cons_self
    exact hall _ hmem
  · intro h
    have hall : ∀ t ∈ x.spellings, spellings.lookup t = some x := by
      cases x <;> decide
    exact hall _ h

/-- A text that spells no special score is its own canonical form. -/
theorem canonical_of_not_spells {text : Bytes} (h : ∀ x, ¬ Spells x text) :
    canonical text = text := by
  have hnone : special? text = none := by
    cases hs : special? text with
    | none => rfl
    | some x => exact absurd (special?_eq_some_iff.mp hs) (h x)
  rw [canonical, hnone]

theorem canonical_of_spells {text : Bytes} {x : Special} (h : Spells x text) :
    canonical text = x.text := by
  rw [canonical, special?_eq_some_iff.mpr h]

/-- Of a flat list of members and scores just the scores are made canonical. -/
theorem canonicalise_flattenPairs (ms : List (Bytes × Bytes)) :
    canonicalise (Bytes.flattenPairs ms) =
      Bytes.flattenPairs (ms.map fun m => (m.1, canonical m.2)) := by
  induction ms with
  | nil => rfl
  | cons m ms ih =>
    have hcons (ps : List (Bytes × Bytes)) (p : Bytes × Bytes) :
        Bytes.flattenPairs (p :: ps) = p.1 :: p.2 :: Bytes.flattenPairs ps := rfl
    have hshift : (fun i (v : Bytes) => if (i + 1 + 1) % 2 = 1 then canonical v else v) =
        fun i v => if i % 2 = 1 then canonical v else v := by
      funext i v
      rw [Nat.add_assoc, Nat.add_mod_right]
    rw [canonicalise] at ih ⊢
    rw [List.map_cons, hcons, hcons, List.mapIdx_cons, List.mapIdx_cons]
    simp only [hshift, ih]
    rfl

end Score

end RedisDump
