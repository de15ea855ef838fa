import RedisDump.Entry.Steps

/-!
# What questions do to a row

A question to a row of entries decodes the elements of some keys, each at most once, and does
nothing else: no entry is added, and each is what it was or what decoding makes of it (`Decoded`).
What is kept by decoding one entry is therefore kept by every question, and by a comparison, which
needs the elements of two keys with the same name and kind, and nothing else (`Entry.Close`).
-/

namespace RedisDump

/-- A position that counts from the start names the same place in a longer row. -/
theorem Position.place_of_le {m n : Nat} (h : m ≤ n) {i : Int} (hi : 0 ≤ i ∧ i < m) :
    place n i = (place m i).map (Fin.castLE h) := by
  have hm : fromStart m i = i := if_neg (by omega)
  have hn : fromStart n i = i := if_neg (by omega)
  have hi' : 0 ≤ i ∧ i < n := ⟨hi.1, by omega⟩
  unfold place
  simp only [hm, hn, hi, hi', and_self, dif_pos]
  split <;> rfl

variable {δ ε : Type} [Decodable δ ε]

namespace Deferred

theorem withElements_snd (d : Deferred δ) (f : List Bytes → Except (Error ε) (Answer δ))
    (failure : ε → Error ε) : (d.withElements f failure).2 = d.force.2 := by
  unfold withElements
  generalize d.force = x
  obtain ⟨answer, d'⟩ := x
  cases answer <;> rfl

/-- A question leaves a list as it is or decodes it. -/
theorem step_snd (d : Deferred δ) (q : Step) :
    (d.step q).2 = d ∨ (d.step q).2 = d.force.2 := by
  cases q with
  | isRealized => exact .inl rfl
  | captured => exact .inl rfl
  | describe => exact .inl rfl
  | hash => exact .inl rfl
  | get | alterCopy | size | isNonempty | item | slice | reversed | contains | count =>
    exact .inr (withElements_snd _ _ _)
  | position value start stop =>
    simp only [step]
    split
    · exact .inl rfl
    · exact .inr (withElements_snd _ _ _)
  | equals other | differs other =>
    cases other with
    | foreign => exact .inl rfl
    | elements values => exact .inr (withElements_snd _ _ _)

end Deferred

namespace Entry

/-! ### Comparisons -/

/-- Two keys that differ at most in their elements and in what is compared after them. -/
def Close : Entry δ → Entry δ → Prop
  | keyValue f _, keyValue f' _ => f.key = f'.key ∧ f.kind = f'.kind
  | _, _ => False

omit [Decodable δ ε] in
theorem Close.exists_keyValue {e e' : Entry δ} (h : Close e e') :
    ∃ f v f' v', e = keyValue f v ∧ e' = keyValue f' v' ∧ f.key = f'.key ∧ f.kind = f'.kind := by
  cases e with
  | keyValue f v =>
    cases e' with
    | keyValue f' v' => exact ⟨f, v, f', v', rfl, rfl, h⟩
    | eof | selectDb | resizeDb | aux => cases h
  | eof | selectDb | resizeDb | aux => cases h

omit [Decodable δ ε] in
theorem sameFields_keyValue (f f' : KeyFields) (v v' : Deferred δ) :
    (keyValue f v).sameFields (keyValue f' v') = decide (f = f') := by
  simp only [sameFields, bare, keyValue.injEq, and_true]

/-- Entries that are not close are compared without their elements. -/
theorem compare_of_not_close {e e' : Entry δ} (h : ¬ Close e e') :
    e.compare e' = (.ok (e.sameFields e'), e, e') := by
  unfold compare
  split
  · rename_i f v f' v'
    have hfields : f ≠ f' := by
      rintro rfl
      exact h ⟨rfl, rfl⟩
    have hk : ¬ (f.key = f'.key ∧ f.kind = f'.kind) := h
    rw [if_neg hk, sameFields_keyValue, decide_eq_false hfields]
  · rfl

/-- Keys are compared by their fields and by what their elements are decoded to. -/
theorem compare_fst_keyValue (f f' : KeyFields) (v v' : Deferred δ) :
    (compare (ε := ε) (keyValue f v) (keyValue f' v')).1 =
      if f.key = f'.key ∧ f.kind = f'.kind then
        v.force.1.bind fun xs => v'.force.1.bind fun xs' => .ok (xs == xs' && f == f')
      else .ok false := by
  by_cases hk : f.key = f'.key ∧ f.kind = f'.kind
  · simp only [compare, if_pos hk]
    generalize v.force = x, v'.force = x'
    obtain ⟨answer, d⟩ := x
    obtain ⟨answer', d'⟩ := x'
    cases answer with
    | error => rfl
    | ok => cases answer' <;> rfl
  · simp only [compare, if_neg hk]

/-- A comparison decodes the elements of two keys or nothing. -/
theorem compare_snd (e e' : Entry δ) :
    ((e.compare e').2.1 = e ∨ (e.compare e').2.1 = e.forceValues.2) ∧
      ((e.compare e').2.2 = e' ∨ (e.compare e').2.2 = e'.forceValues.2) := by
  unfold compare
  split
  · rename_i f v f' v'
    split
    · simp only [forceValues]
      generalize v.force = x, v'.force = x'
      obtain ⟨answer, d⟩ := x
      obtain ⟨answer', d'⟩ := x'
      cases answer with
      | error => exact ⟨.inr rfl, .inl rfl⟩
      | ok => cases answer' <;> exact ⟨.inr rfl, .inr rfl⟩
    · exact ⟨.inl rfl, .inl rfl⟩
  · exact ⟨.inl rfl, .inl rfl⟩

/-! ### Rows -/

/-- A row of which some entries have been decoded, once each. -/
structure Decoded (old new : Array (Entry δ)) : Prop where
  size : new.size = old.size
  entry : ∀ i (h : i < old.size) (h' : i < new.size),
    new[i] = old[i] ∨ new[i] = (old[i].forceValues (ε := ε)).2

namespace Decoded

variable {old new : Array (Entry δ)}

theorem refl (entries : Array (Entry δ)) : Decoded entries entries :=
  ⟨rfl, fun _ _ _ => .inl rfl⟩

/-- An entry may be put in its place, as it was or decoded. -/
theorem set (h : Decoded old new) (p : Fin old.size) (hp : p.val < new.size) {e : Entry δ}
    (he : e = old[p] ∨ e = (old[p].forceValues (ε := ε)).2) : Decoded old (new.set p e hp) where
  size := (Array.size_set hp).trans h.size
  entry i hi hi' := by
    rw [Array.getElem_set]
    split
    · rename_i hpi
      subst hpi
      exact he
    · exact h.entry i hi (by simpa using hi')

end Decoded

theorem decoded_atPosition {entries : Array (Entry δ)} {i : Int}
    {go : Fin entries.size → Except (Error ε) (Answer δ) × Array (Entry δ)}
    (h : ∀ p, Decoded entries (go p).2) : Decoded entries (atPosition entries i go).2 := by
  unfold atPosition
  split
  · exact h _
  · exact .refl _

theorem decoded_askValues (entries : Array (Entry δ)) (p : Fin entries.size) (field : String)
    (q : Deferred.Step) : Decoded entries (askValues (ε := ε) entries p field q).2 := by
  unfold askValues
  cases he : entries[p] with
  | keyValue fields values =>
    refine (Decoded.refl entries).set p p.isLt ?_
    rw [he]
    rcases Deferred.step_snd values q with hs | hs
    · exact .inl (congrArg _ hs)
    · exact .inr (congrArg _ hs)
  | eof | selectDb | resizeDb | aux => exact .refl _

theorem decoded_askEquals (entries : Array (Entry δ)) (p q : Fin entries.size) :
    Decoded entries (askEquals (ε := ε) entries p q).2 := by
  obtain ⟨hp, hq⟩ := compare_snd (ε := ε) entries[p] entries[q]
  unfold askEquals
  split
  · exact .refl _
  · have hsize : q.val < (entries.set p (entries[p].compare entries[q]).2.1).size := by simp
    simp only [Array.setIfInBounds, p.isLt, hsize, dif_pos]
    exact ((Decoded.refl entries).set p p.isLt hp).set q hsize hq

/-- **A question decodes the elements of some keys and does nothing else.** -/
theorem decoded_step (entries : Array (Entry δ)) (q : Step) :
    Decoded entries (step (ε := ε) entries q).2 := by
  cases q with
  | entry i => exact decoded_atPosition fun _ => .refl _
  | values i => exact decoded_atPosition fun _ => decoded_askValues ..
  | list i q => exact decoded_atPosition fun _ => decoded_askValues ..
  | equals i j => exact decoded_atPosition fun _ => decoded_atPosition fun _ => decoded_askEquals ..
  | sameHash i j => exact decoded_atPosition fun _ => decoded_atPosition fun _ => .refl _
  | assign i field => exact decoded_atPosition fun _ => .refl _

/-- Questions add no entries. -/
theorem size_step (entries : Array (Entry δ)) (op : Step) :
    (step (ε := ε) entries op).2.size = entries.size :=
  (decoded_step entries op).size

section

variable {Q : Entry δ → Prop}
  (hforce : ∀ fields values, Q (.keyValue fields values) → Q (.keyValue fields values.force.2))

include hforce

theorem forceValues_snd {e : Entry δ} (he : Q e) : Q (e.forceValues (ε := ε)).2 := by
  cases e with
  | keyValue fields values => exact hforce fields values he
  | eof | selectDb | resizeDb | aux => exact he

/-- What decoding keeps of an entry is kept when all entries are decoded. -/
theorem forall_forceValues {entries : Array (Entry δ)} (h : ∀ e ∈ entries, Q e) :
    ∀ e ∈ (entries.map (forceValues (ε := ε))).map Prod.snd, Q e := by
  intro e' hmem
  rw [Array.map_map] at hmem
  obtain ⟨e, hmem', rfl⟩ := Array.mem_map.mp hmem
  exact forceValues_snd hforce (h e hmem')

/-- What decoding keeps of an entry is kept by every question. -/
theorem forall_step {entries : Array (Entry δ)} (h : ∀ e ∈ entries, Q e) (op : Step) :
    ∀ e ∈ (step (ε := ε) entries op).2, Q e := by
  intro e hmem
  have hd := decoded_step (ε := ε) entries op
  obtain ⟨i, hi, rfl⟩ := Array.getElem_of_mem hmem
  have hold : i < entries.size := Nat.lt_of_lt_of_eq hi hd.size
  have he := h entries[i] (Array.getElem_mem hold)
  rcases hd.entry i hold hi with hi | hi
  · rwa [hi]
  · rw [hi]
    exact forceValues_snd hforce he

end

/-! ### Answers -/

theorem askEquals_fst (entries : Array (Entry δ)) {m n : Nat} (hm : m < entries.size)
    (hn : n < entries.size) :
    (askEquals (ε := ε) entries ⟨m, hm⟩ ⟨n, hn⟩).1 =
      if m = n then .ok (.truth true)
      else ((entries[m].compare entries[n]).1.map .truth).mapError
        fun error => .values (.decoding error) := by
  unfold askEquals
  simp only [Fin.mk.injEq]
  split <;> rfl

end Entry

end RedisDump
