import Mathlib.Data.Int.ModEq
import Mathlib.Data.Set.Function
import RedisDump.Proofs.Packed.IntsetGrammar
import RedisDump.Proofs.Packed.ListpackGrammar
import RedisDump.Proofs.Packed.ZiplistGrammar
import RedisDump.Proofs.Wire.Text

/-!
# Signed integers are read alike

A listpack reads a signed integer off its unsigned pattern, so that it can have thirteen bits too;
ziplists, intsets and strings read it from whole bytes. On whole bytes both are the same
(`Scan.signed_eq`), and on any number of bits the patterns stand one for one for the integers in
half their range on either side of zero (`Bytes.twosComplement_bijOn`). So an integer is decoded to
the same decimal text in every encoding that holds it (`signedIntegers_agree`).
-/

namespace RedisDump

/-! ### Patterns -/

namespace Bytes

/-- Every number of `bits` bits has one pattern, and every pattern stands for one of them. -/
theorem twosComplement_bijOn {bits : Nat} (h : 0 < bits) : Set.BijOn (twosComplement bits)
    {raw | raw < 2 ^ bits} {z | -(2 ^ (bits - 1)) ≤ z ∧ z < 2 ^ (bits - 1)} := by
  have hinv : Set.InvOn (fun z : Int => (z % 2 ^ bits).toNat) (twosComplement bits)
      {raw | raw < 2 ^ bits} {z | -(2 ^ (bits - 1)) ≤ z ∧ z < 2 ^ (bits - 1)} :=
    ⟨fun raw hraw => ((twosComplement_eq_iff h).mp ⟨hraw, rfl⟩).2,
      fun z hz => ((twosComplement_eq_iff h).mpr ⟨hz, rfl⟩).2⟩
  exact hinv.bijOn (fun raw hraw => ((twosComplement_eq_iff h).mp ⟨hraw, rfl⟩).1)
    fun z hz => ((twosComplement_eq_iff h).mpr ⟨hz, rfl⟩).1

theorem twosComplement_modEq (bits raw : Nat) :
    twosComplement bits raw ≡ raw [ZMOD 2 ^ bits] := by
  unfold twosComplement
  split
  · exact Int.sub_modulus_modEq_iff.mpr rfl
  · exact Int.ModEq.refl _

end Bytes

/-- The signed integer in the next bytes is the one whose pattern is the unsigned one there, and
both fail alike. -/
theorem Scan.signed_eq {width : Nat} (hw : 0 < width) : signed width =
    (do return Bytes.twosComplement (8 * width) (← littleEndian width)) := by
  simp only [littleEndian, bind_assoc, pure_bind]
  funext s
  cases ht : take width s with
  | error e s' => rw [signed, bind_of_error ht, bind_of_error ht]
  | ok bs s' =>
    obtain ⟨_, ⟨rfl, rfl⟩, -⟩ := (Recognises.take width _ _ _).mp ht
    rw [signed, bind_of_ok ht, bind_of_ok ht,
      Bytes.twosComplement_leNat (List.length_pos_iff.mp hw)]

/-! ### Encodings -/

/-- The integer that an element of a ziplist holds. -/
def Ziplist.Item.integer? : Item → Option Int
  | wide _ _ z _ _ => some z
  | immediate n _ => some n
  | six .. | fourteen .. | thirtyTwo .. => none

/-- The integer that an element of a listpack holds. -/
def Listpack.Item.integer? : Item → Option Int
  | seven n _ => some n
  | thirteen z _ _ | wide _ _ z _ _ => some z
  | six .. | twelve .. | thirtyTwo .. => none

theorem Ziplist.Item.text_of_integer? {i : Item} {z : Int} (h : i.integer? = some z) :
    i.text = Bytes.decimal z := by
  cases i <;> cases h <;> rfl

theorem Listpack.Item.text_of_integer? {i : Item} {z : Int} (h : i.integer? = some z) :
    i.text = Bytes.decimal z := by
  cases i <;> cases h <;> rfl

/-- A list is returned, with the given text at a place. -/
def GivesAt (answer : Except PackedError (List Bytes)) (k : Nat) (text : Bytes) : Prop :=
  ∃ xs, answer = .ok xs ∧ xs[k]? = some text

/-- In every encoding that holds it, the integer is decoded to its decimal text: in ziplists and
listpacks whatever stands around it, in intsets of a width that holds their members, and as a
string. -/
structure DecimalEverywhere (z : Int) : Prop where
  ziplist : ∀ {cutoff : Int} (l : Ziplist.Envelope cutoff) (k : Nat) (e : Ziplist.Entry cutoff),
    l.entries[k]? = some e → e.item.integer? = some z →
      GivesAt (Ziplist.decode cutoff l.bytes) k (Bytes.decimal z)
  listpack : ∀ (l : Listpack.Envelope) (k : Nat) (e : Listpack.Element),
    l.elements[k]? = some e → e.item.integer? = some z →
      GivesAt (Listpack.decode l.bytes) k (Bytes.decimal z)
  intset : ∀ width ∈ Intset.widths, ∀ (zs : List Int) (k : Nat) (rest : Bytes),
    zs.length < 2 ^ 32 → (∀ y ∈ zs, Bytes.FitsSigned width y) → zs[k]? = some z →
      GivesAt (Intset.decode (Intset.written width zs ++ rest)) k (Bytes.decimal z)
  compact : ∀ (limit : Int) (c : Wire.Compact), Bytes.FitsSigned c.width z →
    Reads (c.code :: Bytes.signedBytes c.width z) (Read.text limit) (Bytes.decimal z)

theorem decimalEverywhere (z : Int) : DecimalEverywhere z where
  ziplist l k e he hz := by
    refine ⟨l.texts, Ziplist.decode_iff_envelope.mpr ⟨l, rfl, rfl⟩, ?_⟩
    rw [Ziplist.Envelope.texts, List.getElem?_map, he, Option.map_some, Ziplist.Entry.text,
      Ziplist.Item.text_of_integer? hz]
  listpack l k e he hz := by
    refine ⟨l.texts, Listpack.decode_iff_envelope.mpr ⟨l, rfl, rfl⟩, ?_⟩
    rw [Listpack.Envelope.texts, List.getElem?_map, he, Option.map_some, Listpack.Element.text,
      Listpack.Item.text_of_integer? hz]
  intset width hw zs k rest hcount hfits hz := by
    refine ⟨zs.map Bytes.decimal, Intset.decode_written hw hcount hfits rest, ?_⟩
    rw [List.getElem?_map, hz, Option.map_some]
  compact limit c hz := (Wire.Text.compact c hz).reads

/-- **Signed integers are read alike.** The number that is read off the unsigned pattern of whole
bytes is the signed one of the same bytes, and reading it succeeds and fails alike. For any number
of bits the patterns stand one for one for the numbers in half their range on either side of zero,
each for one that it is congruent to. So an integer is decoded to the same text in all encodings
that hold it: its decimal one. -/
theorem signedIntegers_agree :
    (∀ bs : Bytes, bs ≠ [] → Bytes.twosComplement (8 * bs.length) bs.leNat = bs.leInt) ∧
    (∀ width, 0 < width → Scan.signed width =
      (do return Bytes.twosComplement (8 * width) (← Scan.littleEndian width))) ∧
    (∀ bits, 0 < bits →
      Set.BijOn (Bytes.twosComplement bits) {raw | raw < 2 ^ bits}
        {z | -(2 ^ (bits - 1)) ≤ z ∧ z < 2 ^ (bits - 1)} ∧
      ∀ raw, Bytes.twosComplement bits raw ≡ raw [ZMOD 2 ^ bits]) ∧
    ∀ z, DecimalEverywhere z :=
  ⟨fun _ hne => Bytes.twosComplement_leNat hne, fun _ hw => Scan.signed_eq hw,
    fun _ hbits => ⟨Bytes.twosComplement_bijOn hbits, Bytes.twosComplement_modEq _⟩,
    decimalEverywhere⟩

/-- The number -5 in a byte of a ziplist, in thirteen bits of a listpack, in two bytes of an intset
and as a string; and the least number of 24 bits. -/
theorem signedIntegers_agree_negative :
    Bytes.twosComplement 24 (Bytes.leNat [0, 0, 0x80]) = Bytes.leInt [0, 0, 0x80] ∧
      Scan.signed 3 = (do return Bytes.twosComplement 24 (← Scan.littleEndian 3)) ∧
      Set.BijOn (Bytes.twosComplement 13) {raw | raw < 8192} {z | -4096 ≤ z ∧ z < 4096} ∧
      Bytes.twosComplement 13 8187 ≡ 8187 [ZMOD 8192] ∧
      GivesAt (Ziplist.decode Ziplist.defaultCutoff
        [0, 0, 0, 0, 0, 0, 0, 0, 1, 0, 0, 0xFE, 0xFB]) 0 [0x2D, 0x35] ∧
      GivesAt (Listpack.decode [0, 0, 0, 0, 1, 0, 0xDF, 0xFB, 2, 0xFF]) 0 [0x2D, 0x35] ∧
      GivesAt (Intset.decode [2, 0, 0, 0, 1, 0, 0, 0, 0xFB, 0xFF]) 0 [0x2D, 0x35] ∧
      Reads [0xC0, 0xFB] (Read.text defaultTextLimit) [0x2D, 0x35] := by
  obtain ⟨hbytes, hsigned, hbits, htext⟩ := signedIntegers_agree
  obtain ⟨hbij, hmod⟩ := hbits 13 (by decide)
  let l : Ziplist.Envelope Ziplist.defaultCutoff :=
    { lead := [0, 0, 0, 0, 0, 0, 0, 0]
      count := 1
      entries := [⟨.short 0 (by decide), .wide 0xFE 1 (-5) (by decide) (by decide)⟩]
      rest := []
      length_lead := rfl
      count_le := by decide
      count_eq := fun _ => rfl
      unmarked := fun h => absurd h (by decide)
      ended := fun h => absurd h (by decide) }
  let l' : Listpack.Envelope :=
    { lead := [0, 0, 0, 0]
      count := 1
      elements := [⟨.thirteen (-5) (by decide) (by decide), [2], rfl⟩]
      rest := []
      length_lead := rfl
      count_le := by decide
      count_eq := fun _ => rfl }
  have hziplist := (htext (-5)).ziplist l 0 _ rfl rfl
  have hlistpack := (htext (-5)).listpack l' 0 _ rfl rfl
  have hintset := (htext (-5)).intset 2 (by decide) [-5] 0 [] (by decide) (by decide) rfl
  have hcompact := (htext (-5)).compact defaultTextLimit .int8 (by decide)
  have hfive : Bytes.decimal (-5) = [0x2D, 0x35] := by decide
  rw [hfive] at hziplist hlistpack hintset hcompact
  rw [show l.bytes = [0, 0, 0, 0, 0, 0, 0, 0, 1, 0, 0, 0xFE, 0xFB] by decide] at hziplist
  rw [show l'.bytes = [0, 0, 0, 0, 1, 0, 0xDF, 0xFB, 2, 0xFF] by decide] at hlistpack
  rw [show Intset.written 2 [-5] ++ [] = [2, 0, 0, 0, 1, 0, 0, 0, 0xFB, 0xFF] by decide] at hintset
  exact ⟨hbytes [0, 0, 0x80] nofun, hsigned 3 (by decide), hbij, hmod 8187, hziplist, hlistpack,
    hintset, hcompact⟩

end RedisDump
