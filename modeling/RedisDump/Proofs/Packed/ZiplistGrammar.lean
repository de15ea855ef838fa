import RedisDump.Proofs.Outcome.Containers
import RedisDump.Proofs.Packed.EndMark

/-!
# Writing ziplists

The ziplists that can be written: elements in the nine encodings (`Ziplist.Item`), each with the
length of the entry before it in front (`Ziplist.Entry`), behind a header that counts them, or does
not (`Ziplist.Envelope`). These are the ziplists that are decoded, and to the texts of their
elements (`Ziplist.entries_exact`). What stands for the lengths is passed over, so that a writer may
put the true ones there (`Ziplist.linked`) or any others.
-/

namespace RedisDump.Ziplist

open Scan

/-! ### Elements -/

/-- What an element holds, and in which of the encodings. -/
inductive Item where
  /-- A string with its length in the low six bits of a byte. -/
  | six (s : Bytes) (fits : s.length < 2 ^ 6)
  /-- A string with its length in the low fourteen bits of two bytes, the high ones first. -/
  | fourteen (s : Bytes) (fits : s.length < 2 ^ 14)
  /-- A string with its length in four bytes behind a byte whose low six bits are of no account. -/
  | thirtyTwo (code : UInt8) (s : Bytes) (known : code.toNat / 64 = 2) (fits : s.length < 2 ^ 32)
  /-- An integer in bytes of its own, with the byte that tells how many they are. -/
  | wide (code : UInt8) (width : Nat) (z : Int) (known : (code, width) ∈ integerWidths)
    (fits : Bytes.FitsSigned width z)
  /-- An integer from 0 to 12 in the byte itself. -/
  | immediate (n : Nat) (fits : n ≤ 12)

namespace Item

/-- What the element is decoded to: the string, or the decimal text of the integer. -/
def text : Item → Bytes
  | six s _ | fourteen s _ | thirtyTwo _ s _ _ => s
  | wide _ _ z _ _ => Bytes.decimal z
  | immediate n _ => Bytes.decimal n

/-- The bytes of the element. -/
def bytes : Item → Bytes
  | six s _ => UInt8.ofNat s.length :: s
  | fourteen s _ => UInt8.ofNat (0x40 + s.length / 256) :: UInt8.ofNat (s.length % 256) :: s
  | thirtyTwo code s _ _ => code :: (Bytes.beBytes 4 s.length ++ s)
  | wide code width z _ _ => code :: Bytes.signedBytes width z
  | immediate n _ => [UInt8.ofNat (0xF1 + n)]

theorem elementForm_iff {s bs : Bytes} :
    ElementForm s bs ↔ ∃ i : Item, i.text = s ∧ i.bytes = bs := by
  constructor
  · intro h
    cases h with
    | six h => exact ⟨.six s h, rfl, rfl⟩
    | fourteen h => exact ⟨.fourteen s h, rfl, rfl⟩
    | thirtyTwo hcode h => exact ⟨.thirtyTwo _ s hcode h, rfl, rfl⟩
    | integer h =>
      cases h with
      | wide hcode h => exact ⟨.wide _ _ _ hcode h, rfl, rfl⟩
      | @immediate n h => exact ⟨.immediate n h, rfl, rfl⟩
  · rintro ⟨i, rfl, rfl⟩
    cases i with
    | six s h => exact .six h
    | fourteen s h => exact .fourteen h
    | thirtyTwo code s hcode h => exact .thirtyTwo hcode h
    | wide code width z hcode h => exact .integer (.wide hcode h)
    | immediate n h => exact .integer (.immediate h)

end Item

/-! ### Entries -/

/-- What stands for the length of the entry before: a byte, and four more of any content when it is
above the cutoff. -/
inductive Previous (cutoff : Int) where
  | short (first : UInt8) (whole : (first.toNat : Int) ≤ cutoff)
  | long (first : UInt8) (more : Bytes) (above : cutoff < first.toNat) (four : more.length = 4)

namespace Previous

variable {cutoff : Int}

def first : Previous cutoff → UInt8
  | short first _ | long first _ _ _ => first

def bytes : Previous cutoff → Bytes
  | short first _ => [first]
  | long first more _ _ => first :: more

theorem previousForm_iff {bs : Bytes} :
    PreviousForm cutoff bs ↔ ∃ p : Previous cutoff, p.bytes = bs := by
  constructor
  · intro h
    cases h with
    | short h => exact ⟨.short _ h, rfl⟩
    | long h hlen => exact ⟨.long _ _ h hlen, rfl⟩
  · rintro ⟨p, rfl⟩
    cases p with
    | short first h => exact .short h
    | long first more h hlen => exact .long h hlen

theorem toNat_ofNat_le {n : Nat} (h : n < 254) : ((UInt8.ofNat n).toNat : Int) ≤ defaultCutoff := by
  have hb : (UInt8.ofNat n).toNat = n := UInt8.toNat_ofNat_of_lt (show n < 256 by omega)
  rw [hb, defaultCutoff]
  omega

/-- A length as the usual cutoff has it: in a byte below 254, else in four bytes behind 254. A
length of more bytes is cut to the four lowest ones. -/
def ofLength (n : Nat) : Previous defaultCutoff :=
  if h : n < 254 then .short (UInt8.ofNat n) (toNat_ofNat_le h)
  else .long 0xFE (Bytes.leBytes 4 n) (by decide) (Bytes.length_leBytes 4 n)

/-- A length that is written so is not taken for the end mark. -/
theorem first_ofLength_ne (n : Nat) : (ofLength n).first ≠ endMark := by
  unfold ofLength
  split
  · rename_i h
    intro he
    have hle := toNat_ofNat_le h
    rw [show UInt8.ofNat n = endMark from he] at hle
    exact absurd hle (by decide)
  · intro he
    have hmark : (0xFE : UInt8) = endMark := he
    exact absurd hmark (by decide)

end Previous

/-- An element behind what stands for the length of the entry before. -/
structure Entry (cutoff : Int) where
  previous : Previous cutoff
  item : Item

namespace Entry

variable {cutoff : Int}

def text (e : Entry cutoff) : Bytes :=
  e.item.text

def bytes (e : Entry cutoff) : Bytes :=
  e.previous.bytes ++ e.item.bytes

theorem head?_bytes (e : Entry cutoff) : e.bytes.head? = some e.previous.first := by
  obtain ⟨p, i⟩ := e
  cases p <;> rfl

theorem entryForm_iff {s bs : Bytes} :
    EntryForm cutoff s bs ↔ ∃ e : Entry cutoff, e.text = s ∧ e.bytes = bs := by
  constructor
  · rintro ⟨hprevious, helement⟩
    obtain ⟨p, rfl⟩ := Previous.previousForm_iff.mp hprevious
    obtain ⟨i, rfl, rfl⟩ := Item.elementForm_iff.mp helement
    exact ⟨⟨p, i⟩, rfl, rfl⟩
  · rintro ⟨⟨p, i⟩, rfl, rfl⟩
    exact .intro (Previous.previousForm_iff.mpr ⟨p, rfl⟩) (Item.elementForm_iff.mpr ⟨i, rfl, rfl⟩)

theorem unmarked_iff {s bs : Bytes} : Unmarked (EntryForm cutoff) s bs ↔
    ∃ e : Entry cutoff, e.previous.first ≠ endMark ∧ e.text = s ∧ e.bytes = bs := by
  unfold Unmarked
  rw [entryForm_iff]
  constructor
  · rintro ⟨⟨e, rfl, rfl⟩, hhead⟩
    rw [head?_bytes] at hhead
    exact ⟨e, fun he => hhead (congrArg some he), rfl, rfl⟩
  · rintro ⟨e, hfirst, rfl, rfl⟩
    rw [head?_bytes]
    exact ⟨⟨e, rfl, rfl⟩, fun he => hfirst (Option.some.inj he)⟩

theorem sequence_iff {xs : List Bytes} {bs : Bytes} :
    Wire.Sequence (EntryForm cutoff) xs bs ↔
      ∃ es : List (Entry cutoff), es.map text = xs ∧ es.flatMap bytes = bs :=
  Wire.Sequence.iff_flatMap fun _ _ => entryForm_iff

theorem unmarked_sequence_iff {xs : List Bytes} {bs : Bytes} :
    Wire.Sequence (Unmarked (EntryForm cutoff)) xs bs ↔
      ∃ es : List (Entry cutoff), (∀ e ∈ es, e.previous.first ≠ endMark) ∧ es.map text = xs ∧
        es.flatMap bytes = bs :=
  Wire.Sequence.iff_flatMap_of fun _ _ => unmarked_iff

end Entry

/-! ### Envelopes -/

/-- A ziplist. The eight bytes in front are of no account. With the count of its entries it may be
followed by anything; with a count of `0xFFFF` it ends at the end mark, for which no entry before
may be taken. -/
structure Envelope (cutoff : Int) where
  lead : Bytes
  count : Nat
  entries : List (Entry cutoff)
  rest : Bytes
  length_lead : lead.length = 8
  count_le : count ≤ 0xFFFF
  count_eq : count < 0xFFFF → count = entries.length
  unmarked : count = 0xFFFF → ∀ e ∈ entries, e.previous.first ≠ 0xFF
  ended : count = 0xFFFF → ∃ more, rest = 0xFF :: more

namespace Envelope

variable {cutoff : Int}

/-- What the entries hold. -/
def items (l : Envelope cutoff) : List Item :=
  l.entries.map Entry.item

/-- What the ziplist is decoded to. -/
def texts (l : Envelope cutoff) : List Bytes :=
  l.entries.map Entry.text

def bytes (l : Envelope cutoff) : Bytes :=
  l.lead ++ (Bytes.leBytes 2 l.count ++ (l.entries.flatMap Entry.bytes ++ l.rest))

theorem texts_eq (l : Envelope cutoff) : l.texts = l.items.map Item.text := by
  rw [texts, items, List.map_map]
  rfl

theorem exists_of_form {xs : List Bytes} {data : Bytes} (h : Form cutoff xs data) :
    ∃ l : Envelope cutoff, l.texts = xs ∧ l.bytes = data := by
  cases h with
  | counted rest hform =>
    obtain @⟨lead, bs, hlead, hlt, hs⟩ := hform
    obtain ⟨es, rfl, rfl⟩ := Entry.sequence_iff.mp hs
    rw [List.length_map] at hlt ⊢
    have hne : es.length ≠ 0xFFFF := Nat.ne_of_lt hlt
    refine ⟨⟨lead, es.length, es, rest, hlead, Nat.le_of_lt hlt, fun _ => rfl, fun h => absurd h hne,
      fun h => absurd h hne⟩, rfl, ?_⟩
    rw [bytes, List.append_assoc, List.append_assoc]
  | uncounted rest hform =>
    cases hform with
    | @uncounted lead bs hlead hs =>
      obtain ⟨es, hes, rfl, rfl⟩ := Entry.unmarked_sequence_iff.mp hs
      refine ⟨⟨lead, 0xFFFF, es, 0xFF :: rest, hlead, Nat.le_refl _,
        fun h => absurd h (Nat.lt_irrefl _), fun _ => hes, fun _ => ⟨rest, rfl⟩⟩, rfl, ?_⟩
      rw [bytes, List.append_assoc, List.append_assoc]
      rfl

theorem form (l : Envelope cutoff) : Form cutoff l.texts l.bytes := by
  have hassoc : l.bytes = l.lead ++ (Bytes.leBytes 2 l.count ++ l.entries.flatMap Entry.bytes) ++
      l.rest := by
    rw [bytes, List.append_assoc, List.append_assoc]
  rw [hassoc]
  by_cases hcount : l.count < 0xFFFF
  · have hs : Wire.Sequence (EntryForm cutoff) l.texts (l.entries.flatMap Entry.bytes) :=
      Entry.sequence_iff.mpr ⟨l.entries, rfl, rfl⟩
    have hlength : l.count = l.texts.length := by
      rw [texts, List.length_map, l.count_eq hcount]
    rw [hlength] at hcount ⊢
    exact .counted l.rest (.counted l.length_lead hcount hs)
  · have hnone : l.count = uncounted := Nat.le_antisymm l.count_le (Nat.le_of_not_lt hcount)
    obtain ⟨more, hmore⟩ := l.ended hnone
    have hs : Wire.Sequence (Unmarked (EntryForm cutoff)) l.texts
        (l.entries.flatMap Entry.bytes) :=
      Entry.unmarked_sequence_iff.mpr ⟨l.entries, l.unmarked hnone, rfl, rfl⟩
    rw [hnone, hmore]
    exact .uncounted more (.uncounted l.length_lead hs)

end Envelope

theorem decode_iff_envelope {cutoff : Int} {data : Bytes} {xs : List Bytes} :
    decode cutoff data = .ok xs ↔ ∃ l : Envelope cutoff, l.texts = xs ∧ l.bytes = data := by
  rw [decode_eq_ok_iff]
  constructor
  · exact Envelope.exists_of_form
  · rintro ⟨l, rfl, rfl⟩
    exact l.form

/-! ### True lengths -/

/-- Entries of the given elements, each behind the true length of the one before. In front of the
first one are `before` bytes. -/
def linked : (before : Nat) → List Item → List (Entry defaultCutoff)
  | _, [] => []
  | before, i :: items =>
    let e : Entry defaultCutoff := { previous := .ofLength before, item := i }
    e :: linked e.bytes.length items

theorem map_item_linked (before : Nat) (items : List Item) :
    (linked before items).map Entry.item = items := by
  induction items generalizing before with
  | nil => rfl
  | cons i items ih => rw [linked, List.map_cons, ih]

theorem first_linked_ne (before : Nat) (items : List Item) :
    ∀ e ∈ linked before items, e.previous.first ≠ endMark := by
  induction items generalizing before with
  | nil => nofun
  | cons i items ih =>
    rw [linked, List.forall_mem_cons]
    exact ⟨Previous.first_ofLength_ne before, ih _⟩

/-- Elements behind true lengths, with their count or without one. -/
theorem decode_linked {lead : Bytes} {items : List Item} {count : Nat} (rest : Bytes)
    (hlead : lead.length = 8) (hle : count ≤ 0xFFFF)
    (hcount : count < 0xFFFF → count = items.length) :
    decode defaultCutoff (lead ++ (Bytes.leBytes 2 count ++
      ((linked 0 items).flatMap Entry.bytes ++ 0xFF :: rest))) = .ok (items.map Item.text) := by
  have hlength : (linked 0 items).length = items.length := by
    rw [← List.length_map, map_item_linked]
  let l : Envelope defaultCutoff :=
    { lead := lead
      count := count
      entries := linked 0 items
      rest := 0xFF :: rest
      length_lead := hlead
      count_le := hle
      count_eq := fun h => (hcount h).trans hlength.symm
      unmarked := fun _ => first_linked_ne 0 items
      ended := fun _ => ⟨rest, rfl⟩ }
  have htexts : l.texts = items.map Item.text := by
    rw [l.texts_eq, Envelope.items, map_item_linked]
  exact decode_iff_envelope.mpr ⟨l, htexts, rfl⟩

/-- **Ziplists are decoded exactly by their grammar.** The ziplists that are decoded are those that
can be written, and give the texts of their elements in stored order; all other bytes are refused
with an error about them. Nothing else of a ziplist matters but its elements, in particular not the
lengths of the entries before. With the usual cutoff all elements can be written behind true lengths,
with their count or without one. -/
theorem entries_exact (cutoff : Int) :
    (∀ data xs, decode cutoff data = .ok xs ↔
      ∃ l : Envelope cutoff, l.texts = xs ∧ l.bytes = data) ∧
    (∀ data, (∀ l : Envelope cutoff, l.bytes ≠ data) →
      ∃ e, decode cutoff data = .error e ∧ e.Within "ziplist" data.length) ∧
    (∀ l l' : Envelope cutoff, l.items = l'.items →
      decode cutoff l.bytes = decode cutoff l'.bytes) ∧
    ∀ (lead : Bytes) (items : List Item) (count : Nat) (rest : Bytes), lead.length = 8 →
      count ≤ 0xFFFF → (count < 0xFFFF → count = items.length) →
        decode defaultCutoff (lead ++ (Bytes.leBytes 2 count ++
          ((linked 0 items).flatMap Entry.bytes ++ 0xFF :: rest))) = .ok (items.map Item.text) := by
  refine ⟨fun data xs => decode_iff_envelope, fun data hnone => ?_, fun l l' hitems => ?_,
    fun lead items count rest hlead hle hcount => decode_linked rest hlead hle hcount⟩
  · refine (elements_within cutoff).exists_error fun xs hx => ?_
    obtain ⟨l, -, hl⟩ := decode_iff_envelope.mp hx
    exact hnone l hl
  · have h : decode cutoff l.bytes = .ok l.texts := decode_iff_envelope.mpr ⟨l, rfl, rfl⟩
    have h' : decode cutoff l'.bytes = .ok l'.texts := decode_iff_envelope.mpr ⟨l', rfl, rfl⟩
    rw [h, h', l.texts_eq, l'.texts_eq, hitems]

/-- The greatest integer in a byte behind four bytes of no meaning, the least of 24 bits behind the
greatest length in one byte, and a string, without their count; a ziplist with an encoding that is
not known; the elements of the first one behind other lengths, with their count; and a string and
an integer behind true lengths, of which the greatest in a byte is 253. -/
theorem entries_exact_mixed :
    decode defaultCutoff ([0, 0, 0, 0, 0, 0, 0, 0, 0xFF, 0xFF, 0xFE, 1, 2, 3, 4, 0xFD] ++
        [0xFD, 0xF0, 0, 0, 0x80, 0, 0xBF, 0, 0, 0, 1, 0x61, 0xFF, 7]) =
        .ok [[49, 50], [45, 56, 51, 56, 56, 54, 48, 56], [0x61]] ∧
      (∃ e, decode defaultCutoff [0, 0, 0, 0, 0, 0, 0, 0, 1, 0, 0, 0xC5] = .error e ∧
        e.Within "ziplist" 12) ∧
      decode defaultCutoff ([0, 0, 0, 0, 0, 0, 0, 0, 0xFF, 0xFF, 0xFE, 1, 2, 3, 4, 0xFD] ++
        [0xFD, 0xF0, 0, 0, 0x80, 0, 0xBF, 0, 0, 0, 1, 0x61, 0xFF, 7]) =
        decode defaultCutoff ([9, 9, 9, 9, 9, 9, 9, 9, 3, 0, 0, 0xFD] ++
          [2, 0xF0, 0, 0, 0x80, 5, 0xBF, 0, 0, 0, 1, 0x61]) ∧
      decode defaultCutoff [0, 0, 0, 0, 0, 0, 0, 0, 2, 0, 0, 1, 0x61, 3, 0xF1, 0xFF] =
        .ok [[0x61], [48]] ∧
      (Previous.ofLength 253).bytes = [0xFD] ∧
      (Previous.ofLength 254).bytes = [0xFE, 0xFE, 0, 0, 0] := by
  let twelve : Item := .immediate 12 (by decide)
  let least : Item := .wide 0xF0 3 (-8388608) (by decide) (by decide)
  let letter : Item := .thirtyTwo 0xBF [0x61] (by decide) (by decide)
  let l : Envelope defaultCutoff :=
    { lead := [0, 0, 0, 0, 0, 0, 0, 0]
      count := 0xFFFF
      entries := [⟨.long 0xFE [1, 2, 3, 4] (by decide) rfl, twelve⟩,
        ⟨.short 0xFD (by decide), least⟩, ⟨.short 0 (by decide), letter⟩]
      rest := [0xFF, 7]
      length_lead := rfl
      count_le := Nat.le_refl _
      count_eq := fun h => absurd h (Nat.lt_irrefl _)
      unmarked := fun _ => by decide
      ended := fun _ => ⟨[7], rfl⟩ }
  let l' : Envelope defaultCutoff :=
    { lead := [9, 9, 9, 9, 9, 9, 9, 9]
      count := 3
      entries := [⟨.short 0 (by decide), twelve⟩, ⟨.short 2 (by decide), least⟩,
        ⟨.short 5 (by decide), letter⟩]
      rest := []
      length_lead := rfl
      count_le := by decide
      count_eq := fun _ => rfl
      unmarked := fun h => absurd h (by decide)
      ended := fun h => absurd h (by decide) }
  obtain ⟨hdecode, hrefused, hsame, hlinked⟩ := entries_exact defaultCutoff
  have hbytes : l.bytes = [0, 0, 0, 0, 0, 0, 0, 0, 0xFF, 0xFF, 0xFE, 1, 2, 3, 4, 0xFD] ++
      [0xFD, 0xF0, 0, 0, 0x80, 0, 0xBF, 0, 0, 0, 1, 0x61, 0xFF, 7] := by
    decide
  have htexts : l.texts = [[49, 50], [45, 56, 51, 56, 56, 54, 48, 56], [0x61]] := by
    decide
  have hbytes' : l'.bytes = [9, 9, 9, 9, 9, 9, 9, 9, 3, 0, 0, 0xFD] ++
      [2, 0xF0, 0, 0, 0x80, 5, 0xBF, 0, 0, 0, 1, 0x61] := by
    decide
  refine ⟨(hdecode _ _).mpr ⟨l, htexts, hbytes⟩, hrefused _ fun m hm => ?_, ?_, ?_, by decide,
    by decide⟩
  · have herror : ∃ e, decode defaultCutoff [0, 0, 0, 0, 0, 0, 0, 0, 1, 0, 0, 0xC5] = .error e :=
      ⟨_, rfl⟩
    obtain ⟨e, he⟩ := herror
    rw [(hdecode _ _).mpr ⟨m, rfl, hm⟩] at he
    cases he
  · rw [← hbytes, ← hbytes']
    exact hsame l l' rfl
  · exact hlinked [0, 0, 0, 0, 0, 0, 0, 0] [.six [0x61] (by decide), .immediate 0 (by decide)] 2 []
      rfl (by decide) fun _ => rfl

end RedisDump.Ziplist
