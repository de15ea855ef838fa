import RedisDump.Proofs.Outcome.Containers
import RedisDump.Proofs.Packed.EndMark

/-!
# Writing zipmaps

The zipmaps that can be written: pairs of a key and a value, each behind its length in one byte or
in five (`Zipmap.Part`), with unused bytes behind the value (`Zipmap.Item`), between a byte of no
meaning and the end mark (`Zipmap.Envelope`). These are the zipmaps that are decoded, and to their
keys and values in turn (`Zipmap.pairs_exact`). Where pairs are followed by no end mark, by a length
that is none or by too few bytes, the walk comes to this place and fails there
(`Zipmap.decode_of_pair_error`).
-/

namespace RedisDump

namespace Zipmap

open Scan

/-! ### Keys and values -/

/-- A key or value with the form of its length: one byte, or four behind a mark when it is `wide`. -/
structure Part where
  text : Bytes
  wide : Bool
  fits : text.length < if wide then 2 ^ 32 else longLength

/-- The bytes of a length. -/
def lengthBytes (wide : Bool) (n : Nat) : Bytes :=
  if wide then UInt8.ofNat longLength :: Bytes.beBytes 4 n else [UInt8.ofNat n]

theorem lengthForm_iff {n : Nat} {bs : Bytes} : LengthForm n bs ↔
    ∃ wide, n < (if wide then 2 ^ 32 else longLength) ∧ lengthBytes wide n = bs := by
  constructor
  · intro h
    cases h with
    | short h => exact ⟨false, h, rfl⟩
    | long h => exact ⟨true, h, rfl⟩
  · rintro ⟨_ | _, h, rfl⟩
    · exact .short h
    · exact .long h

namespace Part

def length (p : Part) : Bytes :=
  lengthBytes p.wide p.text.length

theorem lengthForm (p : Part) : LengthForm p.text.length p.length :=
  lengthForm_iff.mpr ⟨p.wide, p.fits, rfl⟩

theorem exists_of_lengthForm {s len : Bytes} (h : LengthForm s.length len) :
    ∃ p : Part, p.text = s ∧ p.length = len := by
  obtain ⟨wide, hfits, hlen⟩ := lengthForm_iff.mp h
  exact ⟨⟨s, wide, hfits⟩, rfl, hlen⟩

end Part

/-! ### Pairs -/

/-- A key and a value with the unused bytes behind it, whose number stands in a byte. -/
structure Item where
  key : Part
  value : Part
  unused : Bytes
  fits : unused.length < 256

namespace Item

def pair (i : Item) : Bytes × Bytes :=
  (i.key.text, i.value.text)

def bytes (i : Item) : Bytes :=
  i.key.length ++ (i.key.text ++
    (i.value.length ++ (UInt8.ofNat i.unused.length :: (i.value.text ++ i.unused))))

theorem pairForm_iff {p : Bytes × Bytes} {bs : Bytes} :
    PairForm p bs ↔ ∃ i : Item, i.pair = p ∧ i.bytes = bs := by
  constructor
  · intro h
    obtain @⟨k, v, keyLength, valueLength, unused, free, hk, hv, hunused⟩ := h
    obtain ⟨key, rfl, rfl⟩ := Part.exists_of_lengthForm hk
    obtain ⟨value, rfl, rfl⟩ := Part.exists_of_lengthForm hv
    have hfits : unused.length < 256 := hunused ▸ free.toNat_lt
    refine ⟨⟨key, value, unused, hfits⟩, rfl, ?_⟩
    rw [bytes, hunused, UInt8.ofNat_toNat]
  · rintro ⟨i, rfl, rfl⟩
    exact .intro i.key.lengthForm i.value.lengthForm (UInt8.toNat_ofNat_of_lt i.fits).symm

theorem sequence_iff {ps : List (Bytes × Bytes)} {bs : Bytes} :
    Wire.Sequence PairForm ps bs ↔
      ∃ is : List Item, is.map pair = ps ∧ is.flatMap bytes = bs :=
  Wire.Sequence.iff_flatMap fun _ _ => pairForm_iff

/-- A pair has three bytes at least. -/
theorem three_le_length (i : Item) : 3 ≤ i.bytes.length := by
  have hkey := i.key.lengthForm.length_pos
  have hvalue := i.value.lengthForm.length_pos
  simp only [bytes, List.length_append, List.length_cons]
  omega

theorem three_mul_length_le (is : List Item) : 3 * is.length ≤ (is.flatMap bytes).length := by
  induction is with
  | nil => exact Nat.le_refl _
  | cons i is ih =>
    have hi := i.three_le_length
    rw [List.flatMap_cons, List.length_append, List.length_cons]
    omega

end Item

/-! ### Envelopes -/

/-- A zipmap. The byte in front is of no account, and so is what follows the end mark. -/
structure Envelope where
  count : UInt8
  items : List Item
  rest : Bytes

namespace Envelope

/-- What the zipmap is decoded to. -/
def texts (z : Envelope) : List Bytes :=
  Bytes.flattenPairs (z.items.map Item.pair)

/-- The bytes up to the end mark. -/
def body (z : Envelope) : Bytes :=
  z.count :: (z.items.flatMap Item.bytes ++ [endMark])

def bytes (z : Envelope) : Bytes :=
  z.body ++ z.rest

theorem decode_iff {data : Bytes} {xs : List Bytes} :
    decode data = .ok xs ↔ ∃ z : Envelope, z.texts = xs ∧ z.bytes = data := by
  rw [decode_eq_ok_iff]
  constructor
  · rintro ⟨ps, ⟨count, rest, hs⟩, rfl⟩
    obtain ⟨is, rfl, rfl⟩ := Item.sequence_iff.mp hs
    refine ⟨⟨count, is, rest⟩, rfl, ?_⟩
    simp [bytes, body]
  · rintro ⟨z, rfl, rfl⟩
    have hform : Form (z.items.map Item.pair)
        (z.count :: (z.items.flatMap Item.bytes ++ endMark :: z.rest)) :=
      .intro z.count z.rest (Item.sequence_iff.mpr ⟨z.items, rfl, rfl⟩)
    refine ⟨_, ?_, rfl⟩
    simpa [bytes, body] using hform

theorem exists_error {data : Bytes} (hnone : ∀ z : Envelope, z.bytes ≠ data) :
    ∃ e, decode data = .error e ∧ e.Within "zipmap" data.length := by
  obtain ⟨e, he, hwithin⟩ := pairs_within.exists_error fun ps hps => by
    have hdecode : decode data = .ok (Bytes.flattenPairs ps) := by
      rw [decode, hps]
      rfl
    obtain ⟨z, -, hz⟩ := decode_iff.mp hdecode
    exact hnone z hz
  exact ⟨e, by rw [decode, he]; rfl, hwithin⟩

/-- A zipmap that is cut short in front of its end mark, or without it, is none. -/
theorem bytes_ne_take_body (z z' : Envelope) {n : Nat} (h : n < z.body.length) :
    z'.bytes ≠ z.body.take n := by
  intro heq
  have hs : Wire.Sequence PairForm (z.items.map Item.pair) (z.items.flatMap Item.bytes) :=
    Item.sequence_iff.mpr ⟨z.items, rfl, rfl⟩
  have hs' : Wire.Sequence PairForm (z'.items.map Item.pair) (z'.items.flatMap Item.bytes) :=
    Item.sequence_iff.mpr ⟨z'.items, rfl, rfl⟩
  have hall : z'.bytes ++ z.body.drop n = z.body := by rw [heq, List.take_append_drop]
  have hpairs : z'.items.flatMap Item.bytes ++ endMark :: (z'.rest ++ z.body.drop n) =
      z.items.flatMap Item.bytes ++ [endMark] := by
    have htail := congrArg List.tail hall
    simpa [bytes, body] using htail
  -- both walks end at the first end mark, so they pass over the same bytes
  obtain ⟨fs, -, hfs⟩ := isPrefix_of_endMark pair_recognises pair_eager
    (hs.mono fun _ _ h => h.unmarked) hs' hpairs.symm
  obtain ⟨gs, -, hgs⟩ := isPrefix_of_endMark pair_recognises pair_eager
    (hs'.mono fun _ _ h => h.unmarked) hs hpairs
  have hlen := congrArg List.length hpairs
  have hlen₁ := congrArg List.length hfs
  have hlen₂ := congrArg List.length hgs
  simp only [List.length_append, List.length_cons, List.length_nil, List.length_drop] at hlen hlen₁ hlen₂
  omega

end Envelope

/-! ### Bytes that are refused -/

theorem length_of_illegal {b : UInt8} (hb : longLength < b.toNat) (container : String)
    (offset : Nat) (rest : Bytes) :
    length ⟨container, offset, b :: rest⟩ =
      .error (.invalid container (offset + 1) s!"invalid length byte {b.toNat}")
        ⟨container, offset + 1, rest⟩ := by
  have hbyte : byte ⟨container, offset, b :: rest⟩ = .ok b ⟨container, offset + 1, rest⟩ := rfl
  rw [length, bind_of_ok hbyte]
  simp only [if_neg (Nat.lt_asymm hb), if_neg (Nat.ne_of_gt hb)]
  rfl

/-- Behind pairs the walk fails as the next pair does. -/
theorem decode_of_pair_error (count : UInt8) (is : List Item) {b : UInt8} {rest : Bytes}
    {e : PackedError} {s : Scanner} (hb : b ≠ endMark)
    (h : pair ⟨"zipmap", 1 + (is.flatMap Item.bytes).length, b :: rest⟩ = .error e s) :
    decode (count :: (is.flatMap Item.bytes ++ b :: rest)) = .error e := by
  let s₀ : Scanner := ⟨"zipmap", 1, is.flatMap Item.bytes ++ b :: rest⟩
  let s₁ : Scanner := ⟨"zipmap", 1 + (is.flatMap Item.bytes).length, b :: rest⟩
  have hs : Wire.Sequence PairForm (is.map Item.pair) (is.flatMap Item.bytes) :=
    Item.sequence_iff.mpr ⟨is, rfl, rfl⟩
  have hpass : s₀.Passes (is.flatMap Item.bytes) s₁ := ⟨rfl, rfl, rfl⟩
  have hwalk : untilEnd pair pair_eager s₀ = .error e s := by
    rw [untilEnd, untilEndInto_sequence pair_recognises pair_eager
      (hs.mono fun _ _ h => h.unmarked) [] hpass, untilEndInto]
    have hpeek : peek s₁ = .ok b s₁ := rfl
    simp only [hpeek, if_neg hb]
    split
    · rename_i he
      rw [h] at he
      cases he
      rfl
    · rename_i ho
      rw [h] at ho
      cases ho
  have hbyte : byte (Scanner.start "zipmap" (count :: (is.flatMap Item.bytes ++ b :: rest))) =
      .ok count s₀ := rfl
  rw [decode, Scan.decode, pairs, bind_of_ok hbyte, hwalk]
  rfl

/-- A key that starts with no length, and with no end mark either. -/
theorem decode_of_illegal_key (count : UInt8) (is : List Item) (rest : Bytes) :
    decode (count :: (is.flatMap Item.bytes ++ 0xFE :: rest)) =
      .error (.invalid "zipmap" ((is.flatMap Item.bytes).length + 2) "invalid length byte 254") := by
  have hlen : 1 + (is.flatMap Item.bytes).length + 1 = (is.flatMap Item.bytes).length + 2 := by
    omega
  have hlength := length_of_illegal (b := 0xFE) (by decide) "zipmap"
    (1 + (is.flatMap Item.bytes).length) rest
  rw [hlen] at hlength
  exact decode_of_pair_error count is (by decide) (bind_of_error (bind_of_error hlength))

/-- A value that starts with no length. -/
theorem decode_of_illegal_value (count : UInt8) (is : List Item) (key : Part) {b : UInt8}
    (hb : longLength < b.toNat) (rest : Bytes) :
    decode (count :: (is.flatMap Item.bytes ++ (key.length ++ (key.text ++ b :: rest)))) =
      .error (.invalid "zipmap"
        ((is.flatMap Item.bytes).length + (key.length ++ key.text).length + 2)
        s!"invalid length byte {b.toNat}") := by
  let place := 1 + (is.flatMap Item.bytes).length
  let behind := place + (key.length ++ key.text).length
  let flaw := PackedError.invalid "zipmap" (behind + 1) s!"invalid length byte {b.toNat}"
  have hkey : Zipmap.key ⟨"zipmap", place, key.length ++ key.text ++ b :: rest⟩ =
      .ok key.text ⟨"zipmap", behind, b :: rest⟩ :=
    (key_recognises _ _ _).mpr ⟨_, ⟨key.length, key.lengthForm, rfl⟩, rfl, rfl, rfl⟩
  have hvalue : value ⟨"zipmap", behind, b :: rest⟩ = .error flaw ⟨"zipmap", behind + 1, rest⟩ :=
    bind_of_error (length_of_illegal hb "zipmap" behind rest)
  have hpair : pair ⟨"zipmap", place, key.length ++ key.text ++ b :: rest⟩ =
      .error flaw ⟨"zipmap", behind + 1, rest⟩ :=
    (bind_of_ok hkey).trans (bind_of_error hvalue)
  obtain ⟨first, more, hfirst⟩ := key.lengthForm.exists_cons
  have hmark : first ≠ endMark := LengthForm.first_ne (hfirst ▸ key.lengthForm)
  have hbehind : behind + 1 =
      (is.flatMap Item.bytes).length + (key.length ++ key.text).length + 2 := by
    simp only [behind, place]
    omega
  rw [List.append_assoc, hfirst, List.cons_append] at hpair
  rw [← hbehind, hfirst, List.cons_append]
  exact decode_of_pair_error count is hmark hpair

/-- **Zipmaps are decoded exactly by their grammar.** The zipmaps that are decoded are those that
can be written, and give their keys and values in turn; all other bytes are refused with an error
about them. Nothing else of a zipmap matters but its pairs: neither the byte in front, nor the
unused bytes, nor the forms of the lengths, nor what follows the end mark. A byte that starts no
length is refused where a key or value is expected, and so is a zipmap that is cut short anywhere in
front of its end or ends without the end mark. However many pairs are walked over, each has taken
three bytes. -/
theorem pairs_exact :
    (∀ data xs, decode data = .ok xs ↔ ∃ z : Envelope, z.texts = xs ∧ z.bytes = data) ∧
    (∀ data, (∀ z : Envelope, z.bytes ≠ data) →
      ∃ e, decode data = .error e ∧ e.Within "zipmap" data.length) ∧
    (∀ z z' : Envelope, z.items.map Item.pair = z'.items.map Item.pair →
      decode z.bytes = decode z'.bytes) ∧
    (∀ z : Envelope, z.texts.length = 2 * z.items.length) ∧
    (∀ (count : UInt8) (is : List Item) (rest : Bytes),
      decode (count :: (is.flatMap Item.bytes ++ 0xFE :: rest)) =
        .error (.invalid "zipmap" ((is.flatMap Item.bytes).length + 2)
          "invalid length byte 254")) ∧
    (∀ (count : UInt8) (is : List Item) (key : Part) (b : UInt8) (rest : Bytes),
      longLength < b.toNat →
        decode (count :: (is.flatMap Item.bytes ++ (key.length ++ (key.text ++ b :: rest)))) =
          .error (.invalid "zipmap"
            ((is.flatMap Item.bytes).length + (key.length ++ key.text).length + 2)
            s!"invalid length byte {b.toNat}")) ∧
    (∀ (z : Envelope) (n : Nat), n < z.body.length →
      ∃ e, decode (z.body.take n) = .error e ∧ e.Within "zipmap" n) ∧
    ∀ (data : Bytes) (n : Nat) (ps : List (Bytes × Bytes)) (s : Scanner),
      (byte >>= fun _ => collect (fun _ => pair) n : Scan (List (Bytes × Bytes)))
        (Scanner.start "zipmap" data) = .ok ps s → 3 * n < data.length := by
  refine ⟨fun data xs => Envelope.decode_iff, fun data hnone => Envelope.exists_error hnone,
    fun z z' hpairs => ?_, fun z => ?_,
    decode_of_illegal_key, fun count is key b rest hb => decode_of_illegal_value count is key hb rest,
    fun z n hn => ?_, fun data n ps s hwalk => ?_⟩
  · have h : decode z.bytes = .ok z.texts := Envelope.decode_iff.mpr ⟨z, rfl, rfl⟩
    have h' : decode z'.bytes = .ok z'.texts := Envelope.decode_iff.mpr ⟨z', rfl, rfl⟩
    rw [h, h', Envelope.texts, Envelope.texts, hpairs]
  · rw [Envelope.texts, Bytes.length_flattenPairs, List.length_map]
  · have h := Envelope.exists_error fun z' => z.bytes_ne_take_body z' hn
    rwa [List.length_take, Nat.min_eq_left (Nat.le_of_lt hn)] at h
  · obtain ⟨_, s₁, hbyte, hcollect⟩ := bind_eq_ok hwalk
    obtain ⟨_, rfl, hp⟩ := (Recognises.byte _ _ _).mp hbyte
    obtain ⟨bs, ⟨rfl, hs⟩, hp'⟩ := (Recognises.collect (fun _ => pair_recognises) n _ _ _).mp hcollect
    obtain ⟨is, rfl, rfl⟩ := Item.sequence_iff.mp hs
    have hthree := Item.three_mul_length_le is
    rw [show data = _ ++ s₁.rest from hp.rest, hp'.rest]
    simp only [List.length_append, List.length_map, List.length_singleton]
    omega

/-- A pair behind a length in four bytes, with end marks among its unused bytes, and the same pair
without either; a value behind the end mark in place of a length; and the second zipmap without its
end mark. -/
theorem pairs_exact_padded :
    decode [9, 1, 0x61, 0xFD, 0, 0, 0, 1, 2, 0x31, 0xFF, 0xFF, 0xFF, 7] = .ok [[0x61], [0x31]] ∧
      decode [9, 1, 0x61, 0xFD, 0, 0, 0, 1, 2, 0x31, 0xFF, 0xFF, 0xFF, 7] =
        decode [1, 1, 0x61, 1, 0, 0x31, 0xFF] ∧
      decode [1, 1, 0x61, 0xFF] = .error (.invalid "zipmap" 4 "invalid length byte 255") ∧
      ∃ e, decode [1, 1, 0x61, 1, 0, 0x31] = .error e ∧ e.Within "zipmap" 6 := by
  let key : Part := ⟨[0x61], false, by decide⟩
  let padded : Envelope := ⟨9, [⟨key, ⟨[0x31], true, by decide⟩, [0xFF, 0xFF], by decide⟩], [7]⟩
  let plain : Envelope := ⟨1, [⟨key, ⟨[0x31], false, by decide⟩, [], by decide⟩], []⟩
  obtain ⟨hdecode, -, hsame, -, -, hvalue, hcut, -⟩ := pairs_exact
  have hpadded : padded.bytes = [9, 1, 0x61, 0xFD, 0, 0, 0, 1, 2, 0x31, 0xFF, 0xFF, 0xFF, 7] := by
    decide
  have hplain : plain.bytes = [1, 1, 0x61, 1, 0, 0x31, 0xFF] := by decide
  refine ⟨(hdecode _ _).mpr ⟨padded, rfl, hpadded⟩, ?_, hvalue 1 [] key 0xFF [] (by decide),
    hcut plain 6 (by decide)⟩
  rw [← hpadded, ← hplain]
  exact hsame padded plain rfl

end Zipmap

end RedisDump
