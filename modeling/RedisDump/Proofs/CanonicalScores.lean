import RedisDump.Packed
import RedisDump.Proofs.Binary64.Lossless
import RedisDump.Proofs.Scores

/-!
# Canonical scores

Bringing a flat list of members and scores to its canonical form is a projection that leaves the
members alone, even those that are spelled like a special score, and sees a special score whatever
its letter case (`Score.Projects`). The text that it gives to a special score is the one that the
score has in the two forms of a sorted set that is not packed, where it is a byte in place of a
length or the bits of a double (`Score.HandedOut`). Both together are `Score.canonicalise_projects`.
-/

namespace RedisDump.Score

/-! ### Single scores -/

theorem spells_text (x : Special) : Spells x x.text := by
  cases x <;> decide

theorem Special.text_inj {x y : Special} : x.text = y.text → x = y := by
  cases x <;> cases y <;> decide

/-- The canonical form of a score is that of a special one just if the score spells it. -/
theorem canonical_eq_text_iff {text : Bytes} {x : Special} :
    canonical text = x.text ↔ Spells x text := by
  refine ⟨fun h => ?_, canonical_of_spells⟩
  by_cases hspecial : ∃ y, Spells y text
  · obtain ⟨y, hy⟩ := hspecial
    rw [canonical_of_spells hy] at h
    rwa [← Special.text_inj h]
  · rw [canonical_of_not_spells (not_exists.mp hspecial)] at h
    rw [h]
    exact spells_text x

theorem canonical_canonical (text : Bytes) : canonical (canonical text) = canonical text := by
  by_cases hspecial : ∃ x, Spells x text
  · obtain ⟨x, hx⟩ := hspecial
    rw [canonical_of_spells hx, canonical_of_spells (spells_text x)]
  · have hsame := canonical_of_not_spells (not_exists.mp hspecial)
    rw [hsame, hsame]

/-- A special score has its canonical form in any letter case. -/
theorem canonical_of_lower {text other : Bytes} {x : Special} (h : Spells x text)
    (hcase : other.lower = text.lower) : canonical other = canonical text := by
  have hother : Spells x other := by
    unfold Spells
    rw [hcase]
    exact h
  rw [canonical_of_spells h, canonical_of_spells hother]

/-! ### Flat lists of members and scores -/

/-- Two flat lists that differ at most in the letter case of special scores. -/
structure Recased (values others : List Bytes) : Prop where
  length : others.length = values.length
  elements : ∀ i v w, values[i]? = some v → others[i]? = some w →
    w = v ∨ i % 2 = 1 ∧ (∃ x, Spells x v) ∧ w.lower = v.lower

/-- What the canonical form of a flat list is. -/
structure Projects (values : List Bytes) : Prop where
  length : (canonicalise values).length = values.length
  /-- Members stay as they are, however they are spelled. -/
  member : ∀ i, i % 2 = 0 → (canonicalise values)[i]? = values[i]?
  /-- The scores that become a special one are those that spell it. -/
  special : ∀ i v x, i % 2 = 1 → values[i]? = some v →
    ((canonicalise values)[i]? = some (Special.text x) ↔ Spells x v)
  /-- All other scores stay as they are. -/
  ordinary : ∀ i v, i % 2 = 1 → values[i]? = some v → (∀ x, ¬ Spells x v) →
    (canonicalise values)[i]? = some v
  idempotent : canonicalise (canonicalise values) = canonicalise values
  /-- Lists are brought to their canonical forms one by one where the first one ends with a
  score. -/
  append : values.length % 2 = 0 →
    ∀ others, canonicalise (values ++ others) = canonicalise values ++ canonicalise others
  /-- The letter case of special scores does not matter. -/
  recased : ∀ others, Recased values others → canonicalise others = canonicalise values

theorem getElem?_canonicalise (values : List Bytes) (i : Nat) :
    (canonicalise values)[i]? = values[i]?.map fun v => if i % 2 = 1 then canonical v else v := by
  rw [canonicalise, List.getElem?_mapIdx]

theorem canonicalise_canonicalise (values : List Bytes) :
    canonicalise (canonicalise values) = canonicalise values := by
  refine List.ext_getElem? fun i => ?_
  rw [getElem?_canonicalise, getElem?_canonicalise, Option.map_map]
  congr 1
  funext v
  by_cases hodd : i % 2 = 1
  · simp only [Function.comp, if_pos hodd, canonical_canonical]
  · simp only [Function.comp, if_neg hodd]

theorem canonicalise_append {values : List Bytes} (heven : values.length % 2 = 0)
    (others : List Bytes) :
    canonicalise (values ++ others) = canonicalise values ++ canonicalise others := by
  have hshift (i : Nat) : (i + values.length) % 2 = i % 2 := by omega
  simp only [canonicalise, List.mapIdx_append, hshift]

theorem canonicalise_of_recased {values others : List Bytes} (h : Recased values others) :
    canonicalise others = canonicalise values := by
  refine List.ext_getElem (by simp only [length_canonicalise, h.length]) fun i hi hi' => ?_
  rw [length_canonicalise] at hi hi'
  have hcase := h.elements i values[i] others[i] (List.getElem?_eq_getElem hi')
    (List.getElem?_eq_getElem hi)
  simp only [canonicalise, List.getElem_mapIdx]
  obtain hsame | ⟨hodd, ⟨x, hx⟩, hlower⟩ := hcase
  · rw [hsame]
  · rw [if_pos hodd, if_pos hodd, canonical_of_lower hx hlower]

theorem projects (values : List Bytes) : Projects values where
  length := length_canonicalise values
  member i heven := by
    have hodd : ¬ i % 2 = 1 := by omega
    simp only [getElem?_canonicalise, if_neg hodd, Option.map_id']
  special i v x hodd hv := by
    rw [getElem?_canonicalise, hv, Option.map_some, if_pos hodd, Option.some.injEq]
    exact canonical_eq_text_iff
  ordinary i v hodd hv hordinary := by
    rw [getElem?_canonicalise, hv, Option.map_some, if_pos hodd, canonical_of_not_spells hordinary]
  idempotent := canonicalise_canonicalise values
  append := canonicalise_append
  recased _ := canonicalise_of_recased

/-- The spellings of the special scores are eight. -/
example : [Special.positiveInfinity, .negativeInfinity, .notANumber].map Special.spellings =
    [["inf", "infinity", "+inf", "+infinity"], ["-inf", "-infinity"], ["nan", "-nan"]].map
      fun spellings => spellings.map Bytes.ofAscii := by
  decide

/-! ### Special scores in other forms -/

/-- The byte that stands for a special score where the length of a text is expected. -/
def Special.sentinel : Special → UInt8
  | .negativeInfinity => 0xFF
  | .positiveInfinity => 0xFE
  | .notANumber => 0xFD

/-- The bits of a double that is a special score. -/
def Special.HasBits : Special → Nat → Prop
  | .positiveInfinity, bits => bits = Binary64.infinityBits
  | .negativeInfinity, bits => bits = 2 ^ 63 + Binary64.infinityBits
  | .notANumber, bits => Binary64.infinityBits < bits % 2 ^ 63

theorem text_of_hasBits {x : Special} {bits : Nat} (hlt : bits < 2 ^ 64) (h : x.HasBits bits) :
    (Binary64.ofBits bits).text = x.text := by
  cases x with
  | positiveInfinity =>
    cases h
    decide
  | negativeInfinity =>
    cases h
    decide
  | notANumber => exact Binary64.text_of_nan hlt h

/-- How a special score with the given text is handed out, in whatever form it is stored. -/
structure HandedOut (x : Special) (text : Bytes) : Prop where
  /-- As a byte in place of the length of a text. -/
  sentinel : ∀ i after, Input.Gives [x.sentinel] i after → Read.scoreText i = .ok text after
  /-- As a double. -/
  double : ∀ bs i after, bs.length = 8 → x.HasBits bs.leNat → Input.Gives bs i after →
    Read.scoreBinary i = .ok text after
  /-- As a score in a ziplist. -/
  ziplist : ∀ cutoff data xs, Ziplist.decode cutoff data = .ok xs →
    (Packed.scoredZiplist cutoff data).decode = .ok (canonicalise xs) ∧
      ∀ i v, i % 2 = 1 → xs[i]? = some v → Spells x v → (canonicalise xs)[i]? = some text
  /-- As a score in a listpack. -/
  listpack : ∀ data xs, Listpack.decode data = .ok xs →
    (Packed.scoredListpack data).decode = .ok (canonicalise xs) ∧
      ∀ i v, i % 2 = 1 → xs[i]? = some v → Spells x v → (canonicalise xs)[i]? = some text

theorem scoreText_of_gives {x : Special} {i after : Input}
    (h : Input.Gives [x.sentinel] i after) : Read.scoreText i = .ok x.text after := by
  have hbyte : Read.byte i = .ok x.sentinel after :=
    (Read.byte_recognises i _ after).mpr ⟨_, rfl, h⟩
  rw [Read.scoreText, bind_of_ok hbyte]
  cases x <;> rfl

theorem scoreBinary_of_gives {x : Special} {bs : Bytes} {i after : Input}
    (hlength : bs.length = 8) (hbits : x.HasBits bs.leNat) (h : Input.Gives bs i after) :
    Read.scoreBinary i = .ok x.text after := by
  have hlt : bs.leNat < 2 ^ 64 := by
    have hbound := Bytes.leNat_lt bs
    rwa [hlength] at hbound
  rw [← text_of_hasBits hlt hbits]
  exact (Binary64.scoreBinary_recognises i _ after).mpr ⟨bs, ⟨hlength, rfl⟩, h⟩

theorem handedOut (x : Special) : HandedOut x x.text where
  sentinel _ _ := scoreText_of_gives
  double _ _ _ := scoreBinary_of_gives
  ziplist cutoff data xs h := by
    refine ⟨congrArg (Except.map canonicalise) h, fun i v hodd hv hx => ?_⟩
    exact ((projects xs).special i v x hodd hv).mpr hx
  listpack data xs h := by
    refine ⟨congrArg (Except.map canonicalise) h, fun i v hodd hv hx => ?_⟩
    exact ((projects xs).special i v x hodd hv).mpr hx

/-- **Bringing scores to their canonical form is a projection that touches scores only**, and gives
each special score the text that it has in every other form of a sorted set. -/
theorem canonicalise_projects :
    (∀ values, Projects values) ∧ ∀ x, HandedOut x (Special.text x) :=
  ⟨projects, handedOut⟩

/-- A member that is spelled like a special score stays as it is. -/
example : canonicalise (["INF", "-Infinity", "nan", "5", "inf"].map Bytes.ofAscii) =
    ["INF", "-inf", "nan", "5", "inf"].map Bytes.ofAscii := by
  decide

end RedisDump.Score
