import RedisDump.Proofs.Packed.ListpackGrammar

/-!
# The count and the end mark of a listpack

A listpack tells where it ends in two ways: by the count of its elements and by the end mark behind
them. The two agree. With another number stored as its count (`Listpack.withCount`) a listpack is
decoded when this is the number of its elements up to the end mark, and only then, and always to
these elements (`Listpack.count_agrees`).
-/

namespace RedisDump.Listpack

/-! ### Storing a count -/

/-- The bytes with `count` stored as the count. Bytes without a whole header have no place for one
and stay as they are. -/
def withCount (count : Nat) (data : Bytes) : Bytes :=
  if data.length < leadingBytes + 2 then data
  else data.take leadingBytes ++ (Bytes.leBytes 2 count ++ data.drop (leadingBytes + 2))

theorem withCount_of_lt {data : Bytes} (h : data.length < leadingBytes + 2) (count : Nat) :
    withCount count data = data :=
  if_pos h

theorem withCount_append {lead field : Bytes} (hlead : lead.length = leadingBytes)
    (hfield : field.length = 2) (count : Nat) (rest : Bytes) :
    withCount count (lead ++ (field ++ rest)) = lead ++ (Bytes.leBytes 2 count ++ rest) := by
  have hdrop : (lead ++ (field ++ rest)).drop (leadingBytes + 2) = rest := by
    rw [← List.append_assoc]
    refine List.drop_left' ?_
    rw [List.length_append, hlead, hfield]
  unfold withCount
  rw [if_neg, List.take_left' hlead, hdrop]
  simp only [List.length_append]
  omega

/-- Bytes with a whole header are four bytes, a count and what follows. -/
theorem eq_append {data : Bytes} (h : leadingBytes + 2 ≤ data.length) :
    ∃ lead field rest, lead.length = leadingBytes ∧ field.length = 2 ∧
      data = lead ++ (field ++ rest) := by
  refine ⟨data.take leadingBytes, (data.drop leadingBytes).take 2,
    (data.drop leadingBytes).drop 2, ?_, ?_, ?_⟩
  · rw [List.length_take]
    omega
  · rw [List.length_take, List.length_drop]
    omega
  · rw [List.take_append_drop, List.take_append_drop]

/-- Of two counts that are stored the later one stays. -/
theorem withCount_withCount (count count' : Nat) (data : Bytes) :
    withCount count (withCount count' data) = withCount count data := by
  by_cases h : data.length < leadingBytes + 2
  · rw [withCount_of_lt h]
  · obtain ⟨lead, field, rest, hlead, hfield, rfl⟩ := eq_append (Nat.le_of_not_lt h)
    rw [withCount_append hlead hfield, withCount_append hlead (Bytes.length_leBytes 2 count'),
      withCount_append hlead hfield]

theorem storedCount?_withCount {data : Bytes} {count : Nat} (h : leadingBytes + 2 ≤ data.length)
    (hlt : count < uncounted) :
    storedCount? leadingBytes uncounted (withCount count data) = some count := by
  obtain ⟨lead, field, rest, hlead, hfield, rfl⟩ := eq_append h
  have hcount : Bytes.leNat (Bytes.leBytes 2 count) = count :=
    Bytes.leNat_leBytes (Nat.lt_trans hlt (by decide))
  rw [withCount_append hlead hfield, storedCount?, List.drop_left' hlead,
    List.take_left' (Bytes.length_leBytes 2 count), hcount]
  exact if_pos hlt

theorem Envelope.withCount_bytes (l : Envelope) (count : Nat) :
    withCount count l.bytes = l.lead ++ (Bytes.leBytes 2 count ++
      (l.elements.flatMap Element.bytes ++ 0xFF :: l.rest)) :=
  withCount_append l.length_lead (Bytes.length_leBytes 2 l.count) count _

/-! ### Decoding with another count -/

/-- A listpack that is decoded is decoded to the same elements with their number as its count, and
without a count. -/
theorem decode_withCount_of_ok {data : Bytes} {xs : List Bytes} {count : Nat}
    (h : decode data = .ok xs) (hle : count ≤ uncounted)
    (hcount : count < uncounted → count = xs.length) : decode (withCount count data) = .ok xs := by
  obtain ⟨l, rfl, rfl⟩ := decode_iff_envelope.mp h
  rw [Envelope.texts, List.length_map] at hcount
  let l' : Envelope := { l with count := count, count_le := hle, count_eq := hcount }
  exact decode_iff_envelope.mpr ⟨l', rfl, (l.withCount_bytes count).symm⟩

theorem length_le_of_decode {data : Bytes} {xs : List Bytes} (h : decode data = .ok xs) :
    leadingBytes + 2 ≤ data.length := by
  refine Nat.le_of_not_lt fun hlt => ?_
  obtain ⟨e, he⟩ := decode_endMarked.short hlt
  rw [h] at he
  cases he

/-- The count asks just for its own number of elements in front of the end mark. -/
theorem decode_withCount_eq_ok_iff {data : Bytes} {xs : List Bytes} {count : Nat}
    (hlt : count < uncounted) :
    decode (withCount count data) = .ok xs ↔
      decode (withCount uncounted data) = .ok xs ∧ xs.length = count := by
  constructor
  · intro h
    -- Bytes without a whole header have no count, but are not decoded either.
    have hwhole : leadingBytes + 2 ≤ data.length := by
      refine Nat.le_of_not_lt fun hshort => ?_
      have hle := length_le_of_decode h
      rw [withCount_of_lt hshort] at hle
      omega
    have hnone := decode_withCount_of_ok h (Nat.le_refl uncounted)
      fun hu => absurd hu (Nat.lt_irrefl _)
    rw [withCount_withCount] at hnone
    exact ⟨hnone, length_of_decode (storedCount?_withCount hwhole hlt) h⟩
  · rintro ⟨h, rfl⟩
    have hsome := decode_withCount_of_ok h (Nat.le_of_lt hlt) fun _ => rfl
    rwa [withCount_withCount] at hsome

/-- **The stored count of a listpack and its end mark agree.** When the walk up to the end mark gives
fewer elements than a count can say, their number as the count gives the same elements, and every
other number is refused. What the walk refuses is refused with every count. -/
theorem count_agrees (data : Bytes) :
    (∀ xs, decode (withCount uncounted data) = .ok xs → xs.length < uncounted →
      decode (withCount xs.length data) = .ok xs ∧
        ∀ count < uncounted, count ≠ xs.length → ∃ e, decode (withCount count data) = .error e ∧
          e.Within "listpack" (withCount count data).length) ∧
    ((∃ e, decode (withCount uncounted data) = .error e) →
      ∀ count ≤ uncounted, ∃ e, decode (withCount count data) = .error e ∧
        e.Within "listpack" (withCount count data).length) ∧
    ∀ xs, decode data = .ok xs → decode (withCount uncounted data) = .ok xs := by
  refine ⟨fun xs h hlength => ⟨?_, fun count hlt hne => ?_⟩, fun ⟨e, he⟩ count hle => ?_,
    fun xs h => ?_⟩
  · exact (decode_withCount_eq_ok_iff hlength).mpr ⟨h, rfl⟩
  · refine elements_within.exists_error fun ys hy => ?_
    obtain ⟨hnone, rfl⟩ := (decode_withCount_eq_ok_iff hlt).mp hy
    rw [h] at hnone
    cases hnone
    exact hne rfl
  · refine elements_within.exists_error fun ys hy => ?_
    have hnone : decode (withCount uncounted data) = .ok ys := by
      obtain hlt | rfl := Nat.lt_or_eq_of_le hle
      · exact ((decode_withCount_eq_ok_iff hlt).mp hy).1
      · exact hy
    rw [he] at hnone
    cases hnone
  · exact decode_withCount_of_ok h (Nat.le_refl uncounted) fun hu => absurd hu (Nat.lt_irrefl _)

/-- A listpack of a string and an integer, with a count of neither. -/
def twoElements : Bytes :=
  [0, 0, 0, 0, 9, 9, 0x81, 0x61, 2, 0x7F, 1, 0xFF]

/-- It is decoded with a count of two and refused with one and three; without its end mark it is
refused with every count. -/
theorem count_agrees_twoElements :
    decode [0, 0, 0, 0, 2, 0, 0x81, 0x61, 2, 0x7F, 1, 0xFF] = .ok [[0x61], [49, 50, 55]] ∧
      (∃ e, decode [0, 0, 0, 0, 1, 0, 0x81, 0x61, 2, 0x7F, 1, 0xFF] = .error e ∧
        e.Within "listpack" 12) ∧
      (∃ e, decode [0, 0, 0, 0, 3, 0, 0x81, 0x61, 2, 0x7F, 1, 0xFF] = .error e ∧
        e.Within "listpack" 12) ∧
      (∀ count ≤ 0xFFFF, ∃ e, decode (withCount count (twoElements.take 11)) = .error e ∧
        e.Within "listpack" (withCount count (twoElements.take 11)).length) ∧
      decode (withCount 0xFFFF [0, 0, 0, 0, 0, 0, 0xFF]) = .ok [] := by
  let l : Envelope :=
    { lead := [0, 0, 0, 0]
      count := 0xFFFF
      elements := [⟨.six [0x61] (by decide), [2], rfl⟩, ⟨.seven 127 (by decide), [1], rfl⟩]
      rest := []
      length_lead := rfl
      count_le := Nat.le_refl _
      count_eq := fun h => absurd h (Nat.lt_irrefl _) }
  have hwalk : decode (withCount uncounted twoElements) = .ok [[0x61], [49, 50, 55]] :=
    decode_iff_envelope.mpr ⟨l, by decide, by decide⟩
  obtain ⟨hcount, hother⟩ := (count_agrees twoElements).1 _ hwalk (by decide)
  have hmissing : ∃ e, decode (withCount uncounted (twoElements.take 11)) = .error e := by
    have hbytes : withCount uncounted (twoElements.take 11) =
        [0, 0, 0, 0, 0xFF, 0xFF] ++ l.elements.flatMap Element.bytes := by
      decide
    have hs : Wire.Sequence ElementForm l.texts (l.elements.flatMap Element.bytes) :=
      Element.sequence_iff.mpr ⟨l.elements, rfl, rfl⟩
    rw [hbytes]
    exact decode_endMarked.missing rfl trivial (hs.mono fun _ _ h => h.unmarked)
  refine ⟨hcount, hother 1 (by decide) (by decide), hother 3 (by decide) (by decide), ?_, ?_⟩
  · exact (count_agrees (twoElements.take 11)).2.1 hmissing
  · exact (count_agrees [0, 0, 0, 0, 0, 0, 0xFF]).2.2 [] rfl

end RedisDump.Listpack
