import RedisDump.Proofs.Outcome.Containers
import RedisDump.Proofs.Packed.EndMark

/-!
# Writing listpacks

The listpacks that can be written: elements in the nine encodings (`Listpack.Item`), each with its
size behind it (`Listpack.Element`), between a header that counts them, or does not, and the end
mark (`Listpack.Envelope`). These are the listpacks that are decoded, and to the texts of their
elements (`Listpack.grammar_exact`).
-/

namespace RedisDump.Listpack

open Scan

/-! ### Elements -/

/-- What an element holds, and in which of the encodings. -/
inductive Item where
  /-- An integer in the low seven bits of a byte. -/
  | seven (n : Nat) (fits : n < 2 ^ 7)
  /-- A string with its length in the low six bits of a byte. -/
  | six (s : Bytes) (fits : s.length < 2 ^ 6)
  /-- An integer in the low thirteen bits of two bytes. -/
  | thirteen (z : Int) (low : -(2 ^ 12) ≤ z) (high : z < 2 ^ 12)
  /-- A string with its length in the low twelve bits of two bytes. -/
  | twelve (s : Bytes) (fits : s.length < 2 ^ 12)
  /-- A string with its length in four bytes. -/
  | thirtyTwo (s : Bytes) (fits : s.length < 2 ^ 32)
  /-- An integer in bytes of its own, with the byte that tells how many they are. -/
  | wide (code : UInt8) (width : Nat) (z : Int) (known : (code, width) ∈ integerWidths)
    (fits : Bytes.FitsSigned width z)

namespace Item

/-- What the element is decoded to: the string, or the decimal text of the integer. -/
def text : Item → Bytes
  | seven n _ => Bytes.decimal n
  | six s _ | twelve s _ | thirtyTwo s _ => s
  | thirteen z _ _ | wide _ _ z _ _ => Bytes.decimal z

/-- The bytes of the element without its size. -/
def body : Item → Bytes
  | seven n _ => [UInt8.ofNat n]
  | six s _ => UInt8.ofNat (0x80 + s.length) :: s
  | thirteen z _ _ =>
    let raw := (z % 2 ^ 13).toNat
    [UInt8.ofNat (0xC0 + raw / 256), UInt8.ofNat (raw % 256)]
  | twelve s _ => UInt8.ofNat (0xE0 + s.length / 256) :: UInt8.ofNat (s.length % 256) :: s
  | thirtyTwo s _ => 0xF0 :: (Bytes.leBytes 4 s.length ++ s)
  | wide code width z _ _ => code :: Bytes.signedBytes width z

/-- The number of bytes in which the size stands behind the element. That of an integer is short. -/
def sizeWidth : Item → Nat
  | six s _ => backlenWidth (1 + s.length : Nat)
  | twelve s _ => backlenWidth (2 + s.length : Nat)
  | thirtyTwo s _ => backlenWidth (5 + s.length : Nat)
  | seven .. | thirteen .. | wide .. => 1

/-- The size behind an element is as wide as the bytes before it ask for. -/
theorem sizeWidth_eq (i : Item) : i.sizeWidth = backlenWidth i.body.length := by
  cases i with
  | seven n => rfl
  | six s => rw [sizeWidth, body, List.length_cons, Nat.add_comm]
  | thirteen z =>
    rw [sizeWidth, body, List.length_cons, List.length_singleton]
    rfl
  | twelve s => rw [sizeWidth, body, List.length_cons, List.length_cons, Nat.add_comm]
  | thirtyTwo s =>
    rw [sizeWidth, body, List.length_cons, List.length_append, Bytes.length_leBytes]
    congr 2
    omega
  | wide code width z known =>
    simp only [integerWidths, List.mem_cons, List.not_mem_nil, or_false, Prod.mk.injEq] at known
    rw [sizeWidth, body, List.length_cons, Bytes.length_signedBytes, backlenWidth_of_le (by omega)]

/-- An integer of thirteen bits, and its pattern. -/
theorem twosComplement_thirteen {z : Int} {raw : Nat} :
    raw < 2 ^ 13 ∧ Bytes.twosComplement 13 raw = z ↔
      (-(2 ^ 12) ≤ z ∧ z < 2 ^ 12) ∧ (z % 2 ^ 13).toNat = raw :=
  Bytes.twosComplement_eq_iff (by decide)

theorem bodyForm_iff {s bs : Bytes} : BodyForm s bs ↔ ∃ i : Item, i.text = s ∧ i.body = bs := by
  constructor
  · intro h
    cases h with
    | six h => exact ⟨.six s h, rfl, rfl⟩
    | twelve h => exact ⟨.twelve s h, rfl, rfl⟩
    | thirtyTwo h => exact ⟨.thirtyTwo s h, rfl, rfl⟩
    | integer h =>
      cases h with
      | @seven n h => exact ⟨.seven n h, rfl, rfl⟩
      | @thirteen raw h =>
        obtain ⟨⟨hlow, hhigh⟩, hraw⟩ := twosComplement_thirteen.mp ⟨h, rfl⟩
        refine ⟨.thirteen _ hlow hhigh, rfl, ?_⟩
        simp only [body, hraw]
      | wide hcode h => exact ⟨.wide _ _ _ hcode h, rfl, rfl⟩
  · rintro ⟨i, rfl, rfl⟩
    cases i with
    | seven n h => exact .integer (.seven h)
    | six s h => exact .six h
    | thirteen z hlow hhigh =>
      obtain ⟨hraw, hz⟩ := twosComplement_thirteen.mpr ⟨⟨hlow, hhigh⟩, rfl⟩
      have h := BodyForm.integer (.thirteen hraw)
      rwa [hz] at h
    | twelve s h => exact .twelve h
    | thirtyTwo s h => exact .thirtyTwo h
    | wide code width z hcode h => exact .integer (.wide hcode h)

end Item

/-- An element with the bytes in which its size stands. These are passed over, whatever they are. -/
structure Element where
  item : Item
  size : Bytes
  length_size : size.length = item.sizeWidth

namespace Element

def text (e : Element) : Bytes :=
  e.item.text

def bytes (e : Element) : Bytes :=
  e.item.body ++ e.size

theorem elementForm_iff {s bs : Bytes} :
    ElementForm s bs ↔ ∃ e : Element, e.text = s ∧ e.bytes = bs := by
  constructor
  · intro h
    cases h with
    | @intro body size hbody hsize =>
      obtain ⟨i, rfl, rfl⟩ := Item.bodyForm_iff.mp hbody
      exact ⟨⟨i, size, hsize.trans i.sizeWidth_eq.symm⟩, rfl, rfl⟩
  · rintro ⟨e, rfl, rfl⟩
    have hsize := e.length_size.trans e.item.sizeWidth_eq
    exact .intro (Item.bodyForm_iff.mpr ⟨e.item, rfl, rfl⟩) hsize

theorem sequence_iff {xs : List Bytes} {bs : Bytes} :
    Wire.Sequence ElementForm xs bs ↔
      ∃ es : List Element, es.map text = xs ∧ es.flatMap bytes = bs :=
  Wire.Sequence.iff_flatMap fun _ _ => elementForm_iff

end Element

/-! ### Envelopes -/

/-- A listpack. The four bytes in front and what follows the end mark are of no account, and so is
a count of `0xFFFF`. -/
structure Envelope where
  lead : Bytes
  count : Nat
  elements : List Element
  rest : Bytes
  length_lead : lead.length = 4
  count_le : count ≤ 0xFFFF
  count_eq : count < 0xFFFF → count = elements.length

namespace Envelope

/-- What the listpack is decoded to. -/
def texts (l : Envelope) : List Bytes :=
  l.elements.map Element.text

def bytes (l : Envelope) : Bytes :=
  l.lead ++ (Bytes.leBytes 2 l.count ++ (l.elements.flatMap Element.bytes ++ 0xFF :: l.rest))

theorem form_iff {xs : List Bytes} {data : Bytes} :
    Form xs data ↔ ∃ l : Envelope, l.texts = xs ∧ l.bytes = data := by
  constructor
  · intro h
    obtain @⟨known, bs, rest, hform⟩ := h
    cases hform with
    | @counted lead bs hlead hlt hs =>
      obtain ⟨es, rfl, rfl⟩ := Element.sequence_iff.mp hs
      rw [List.length_map] at hlt ⊢
      refine ⟨⟨lead, es.length, es, rest, hlead, Nat.le_of_lt hlt, fun _ => rfl⟩, rfl, ?_⟩
      rw [bytes, List.append_assoc, List.append_assoc]
      rfl
    | @uncounted lead bs hlead hs =>
      obtain ⟨es, rfl, rfl⟩ := Element.sequence_iff.mp (hs.mono fun _ _ h => h.1)
      refine ⟨⟨lead, 0xFFFF, es, rest, hlead, Nat.le_refl _, fun h => absurd h (Nat.lt_irrefl _)⟩,
        rfl, ?_⟩
      rw [bytes, List.append_assoc, List.append_assoc]
      rfl
  · rintro ⟨l, rfl, rfl⟩
    have hs : Wire.Sequence ElementForm l.texts (l.elements.flatMap Element.bytes) :=
      Element.sequence_iff.mpr ⟨l.elements, rfl, rfl⟩
    have hbytes : l.bytes = l.lead ++ (Bytes.leBytes 2 l.count ++
        l.elements.flatMap Element.bytes) ++ endMark :: l.rest := by
      rw [bytes, List.append_assoc, List.append_assoc]
      rfl
    rw [hbytes]
    by_cases hcount : l.count < 0xFFFF
    · have hlength : l.count = l.texts.length := by
        rw [texts, List.length_map, l.count_eq hcount]
      rw [hlength] at hcount ⊢
      exact .intro l.rest (.counted l.length_lead hcount hs)
    · rw [show l.count = uncounted from Nat.le_antisymm l.count_le (Nat.le_of_not_lt hcount)]
      exact .intro l.rest (.uncounted l.length_lead (hs.mono fun _ _ h => h.unmarked))

end Envelope

/-- Any elements can be written, with their number as the count if it is small enough, or without a
count. -/
theorem Envelope.exists_of_items (items : List Item) {count : Nat} (hle : count ≤ 0xFFFF)
    (hcount : count < 0xFFFF → count = items.length) :
    ∃ l : Envelope, l.elements.map Element.item = items ∧ l.count = count := by
  let sized (i : Item) : Element :=
    { item := i, size := List.replicate i.sizeWidth 0, length_size := List.length_replicate }
  have hlength : (items.map sized).length = items.length := List.length_map _
  let l : Envelope :=
    { lead := [0, 0, 0, 0]
      count := count
      elements := items.map sized
      rest := []
      length_lead := rfl
      count_le := hle
      count_eq := fun h => (hcount h).trans hlength.symm }
  refine ⟨l, ?_, rfl⟩
  rw [List.map_map]
  exact List.map_id items

theorem decode_iff_envelope {data : Bytes} {xs : List Bytes} :
    decode data = .ok xs ↔ ∃ l : Envelope, l.texts = xs ∧ l.bytes = data :=
  decode_eq_ok_iff.trans Envelope.form_iff

/-- **Listpacks are decoded exactly by their grammar.** The listpacks that are decoded are those
that can be written, and give the texts of their elements in stored order; all other bytes are
refused with an error about them. Every listpack that is written is decoded to its texts, and any
elements in any mix of the encodings can be written, with their count or without one. -/
theorem grammar_exact :
    (∀ data xs, decode data = .ok xs ↔ ∃ l : Envelope, l.texts = xs ∧ l.bytes = data) ∧
    (∀ data, (∀ l : Envelope, l.bytes ≠ data) →
      ∃ e, decode data = .error e ∧ e.Within "listpack" data.length) ∧
    (∀ l : Envelope, decode l.bytes = .ok l.texts) ∧
    ∀ (items : List Item) (count : Nat), count ≤ 0xFFFF →
      (count < 0xFFFF → count = items.length) →
        ∃ l : Envelope, l.elements.map Element.item = items ∧ l.count = count := by
  refine ⟨fun data xs => decode_iff_envelope, fun data hnone => ?_,
    fun l => decode_iff_envelope.mpr ⟨l, rfl, rfl⟩,
    fun items count => Envelope.exists_of_items items⟩
  refine elements_within.exists_error fun xs hx => ?_
  obtain ⟨l, -, hl⟩ := decode_iff_envelope.mp hx
  exact hnone l hl

/-- The least integer of thirteen bits, the greatest of seven and the least of sixteen, and a
string, without their count; and a listpack without its end mark. -/
theorem grammar_exact_mixed :
    decode [0, 0, 0, 0, 0xFF, 0xFF, 0xD0, 0, 2, 0x7F, 1, 0xF1, 0, 0x80, 3, 0x81, 0x61, 2, 0xFF, 7] =
        .ok [[45, 52, 48, 57, 54], [49, 50, 55], [45, 51, 50, 55, 54, 56], [0x61]] ∧
      ∃ e, decode [0, 0, 0, 0, 1, 0, 0x81, 0x61, 2] = .error e ∧ e.Within "listpack" 9 := by
  let l : Envelope :=
    { lead := [0, 0, 0, 0]
      count := 0xFFFF
      elements := [⟨.thirteen (-4096) (by decide) (by decide), [2], rfl⟩,
        ⟨.seven 127 (by decide), [1], rfl⟩,
        ⟨.wide 0xF1 2 (-32768) (by decide) (by decide), [3], rfl⟩,
        ⟨.six [0x61] (by decide), [2], rfl⟩]
      rest := [7]
      length_lead := rfl
      count_le := Nat.le_refl _
      count_eq := fun h => absurd h (Nat.lt_irrefl _) }
  obtain ⟨-, hrefused, hwritten, -⟩ := grammar_exact
  have hbytes : l.bytes =
      [0, 0, 0, 0, 0xFF, 0xFF, 0xD0, 0, 2, 0x7F, 1, 0xF1, 0, 0x80, 3, 0x81, 0x61, 2, 0xFF, 7] := by
    decide
  have htexts : l.texts =
      [[45, 52, 48, 57, 54], [49, 50, 55], [45, 51, 50, 55, 54, 56], [0x61]] := by
    decide
  have hmixed := hwritten l
  rw [hbytes, htexts] at hmixed
  refine ⟨hmixed, ?_⟩
  have herror : ∃ e, decode [0, 0, 0, 0, 1, 0, 0x81, 0x61, 2] = .error e := ⟨_, rfl⟩
  refine hrefused _ fun l hl => ?_
  obtain ⟨e, he⟩ := herror
  rw [← hl, hwritten l] at he
  cases he

end RedisDump.Listpack
