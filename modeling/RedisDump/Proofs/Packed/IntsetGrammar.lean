import RedisDump.Proofs.Decimal
import RedisDump.Proofs.Outcome.Containers
import RedisDump.Proofs.Packed.Intset

/-!
# Writing intsets

What stands in an intset: a width, a count and the integers behind them (`Intset.members`). The
intsets that are decoded are those that have one of the three widths and bytes enough for the count
(`Intset.Whole`), and they give the decimal texts of their members (`Intset.members_exact`). So the
integers can be written with any width that holds them (`Intset.written`).
-/

namespace RedisDump

namespace Intset

open Scan

/-! ### The parts of an intset -/

/-- The width that an intset tells of its members. -/
def width (data : Bytes) : Nat :=
  Bytes.leNat (data.take 4)

/-- The count that an intset tells of its members. -/
def count (data : Bytes) : Nat :=
  Bytes.leNat ((data.drop 4).take 4)

/-- So many signed integers of a width, one behind the other. -/
def integers (width : Nat) : (n : Nat) → Bytes → List Int
  | 0, _ => []
  | n + 1, bs => Bytes.leInt (bs.take width) :: integers width n (bs.drop width)

/-- The integers in an intset, in stored order. -/
def members (data : Bytes) : List Int :=
  integers (width data) (count data) (data.drop 8)

/-- An intset of a width that there is, with bytes enough for all of its members. -/
structure Whole (data : Bytes) : Prop where
  width_mem : width data ∈ widths
  room : 8 + count data * width data ≤ data.length

instance (data : Bytes) : Decidable (Whole data) :=
  decidable_of_iff (width data ∈ widths ∧ 8 + count data * width data ≤ data.length)
    ⟨fun h => ⟨h.1, h.2⟩, fun h => ⟨h.width_mem, h.room⟩⟩

/-- The bytes of an intset that holds integers in a width. -/
def written (width : Nat) (zs : List Int) : Bytes :=
  Bytes.leBytes 4 width ++ (Bytes.leBytes 4 zs.length ++ zs.flatMap (Bytes.signedBytes width))

@[simp] theorem length_integers (width n : Nat) (bs : Bytes) :
    (integers width n bs).length = n := by
  induction n generalizing bs with
  | zero => rfl
  | succ n ih => rw [integers, List.length_cons, ih]

/-! ### Integers one behind the other -/

theorem sequence_memberForm_iff {width : Nat} {zs : List Int} {bs : Bytes} :
    Wire.Sequence (MemberForm width) zs bs ↔
      (∀ z ∈ zs, Bytes.FitsSigned width z) ∧ zs.flatMap (Bytes.signedBytes width) = bs := by
  have hform (z : Int) (bs : Bytes) : MemberForm width z bs ↔
      ∃ y, Bytes.FitsSigned width y ∧ id y = z ∧ Bytes.signedBytes width y = bs := by
    constructor
    · rintro ⟨hz, rfl⟩
      exact ⟨z, hz, rfl, rfl⟩
    · rintro ⟨y, hy, rfl, rfl⟩
      exact ⟨hy, rfl⟩
  rw [Wire.Sequence.iff_flatMap_of hform]
  constructor
  · rintro ⟨ys, hys, rfl, rfl⟩
    rw [List.map_id]
    exact ⟨hys, rfl⟩
  · rintro ⟨hzs, rfl⟩
    exact ⟨zs, hzs, List.map_id zs, rfl⟩

/-- What is written of integers has all of them, and they are read back from it. -/
theorem integers_of_sequence {width : Nat} (hw : 0 < width) {zs : List Int} {bs : Bytes}
    (h : Wire.Sequence (MemberForm width) zs bs) (rest : Bytes) :
    bs.length = zs.length * width ∧ integers width zs.length (bs ++ rest) = zs := by
  induction h with
  | nil => exact ⟨(Nat.zero_mul width).symm, rfl⟩
  | @cons z zs _ cs hz _ ih =>
    obtain ⟨hfits, rfl⟩ := hz
    obtain ⟨hlength, hread⟩ := ih
    have hz := Bytes.length_signedBytes width z
    constructor
    · rw [List.length_append, hz, hlength, List.length_cons, Nat.succ_mul, Nat.add_comm]
    · rw [List.length_cons, integers, List.append_assoc, List.take_left' hz, List.drop_left' hz,
        Bytes.leInt_signedBytes hw hfits, hread]

/-- Bytes that are enough hold integers, and are written for them. -/
theorem sequence_integers {width : Nat} (hw : 0 < width) {n : Nat} {bs : Bytes}
    (h : n * width ≤ bs.length) :
    Wire.Sequence (MemberForm width) (integers width n bs) (bs.take (n * width)) := by
  induction n generalizing bs with
  | zero =>
    rw [Nat.zero_mul, List.take_zero]
    exact .nil
  | succ n ih =>
    rw [Nat.succ_mul] at h
    have hlength : (bs.take width).length = width := by
      rw [List.length_take]
      omega
    have hne : bs.take width ≠ [] := by
      rintro hnil
      rw [hnil, List.length_nil] at hlength
      omega
    have hfits := Bytes.fitsSigned_leInt hne
    have hbytes := Bytes.signedBytes_leInt hne
    rw [hlength] at hfits hbytes
    have hrest : n * width ≤ (bs.drop width).length := by
      rw [List.length_drop]
      omega
    rw [integers, Nat.succ_mul, Nat.add_comm, List.take_add]
    exact .cons ⟨hfits, hbytes.symm⟩ (ih hrest)

/-! ### Whole intsets -/

theorem form_iff {data : Bytes} {zs : List Int} :
    Form zs data ↔ Whole data ∧ members data = zs := by
  constructor
  · intro h
    obtain @⟨w, bs, rest, hw, hcount, hs⟩ := h
    have hpos := bounds_of_mem_widths hw
    obtain ⟨hlength, hread⟩ := integers_of_sequence hpos.1 hs rest
    have hwidth : width (Bytes.leBytes 4 w ++ (Bytes.leBytes 4 zs.length ++ (bs ++ rest))) = w := by
      rw [width, List.take_left' (Bytes.length_leBytes 4 w), Bytes.leNat_leBytes (by omega)]
    have hcount' : count (Bytes.leBytes 4 w ++ (Bytes.leBytes 4 zs.length ++ (bs ++ rest))) =
        zs.length := by
      rw [count, List.drop_left' (Bytes.length_leBytes 4 w),
        List.take_left' (Bytes.length_leBytes 4 _), Bytes.leNat_leBytes hcount]
    have hbody : (Bytes.leBytes 4 w ++ (Bytes.leBytes 4 zs.length ++ (bs ++ rest))).drop 8 =
        bs ++ rest := by
      rw [← List.append_assoc]
      exact List.drop_left' (by simp)
    refine ⟨⟨hwidth.symm ▸ hw, ?_⟩, ?_⟩
    · rw [hwidth, hcount']
      simp only [List.length_append, Bytes.length_leBytes, hlength]
      omega
    · rw [members, hwidth, hcount', hbody, hread]
  · rintro ⟨⟨hw, hroom⟩, rfl⟩
    have hwidth : Bytes.leBytes 4 (width data) = data.take 4 := by
      have h := Bytes.leBytes_leNat (data.take 4)
      rwa [List.length_take, Nat.min_eq_left (by omega)] at h
    have hcount : Bytes.leBytes 4 (members data).length = (data.drop 4).take 4 := by
      have h := Bytes.leBytes_leNat ((data.drop 4).take 4)
      rw [List.length_take, List.length_drop, Nat.min_eq_left (by omega)] at h
      rw [members, length_integers]
      exact h
    have hlt : (members data).length < 2 ^ 32 := by
      have h := Bytes.leNat_lt ((data.drop 4).take 4)
      rw [List.length_take, List.length_drop, Nat.min_eq_left (by omega)] at h
      rw [members, length_integers]
      exact h
    have hbody : count data * width data ≤ (data.drop 8).length := by
      rw [List.length_drop]
      omega
    have hs := sequence_integers (bounds_of_mem_widths hw).1 hbody
    have hdata := Form.intro ((data.drop 8).drop (count data * width data)) hw hlt hs
    rw [List.take_append_drop, hwidth, hcount] at hdata
    have hbytes : data.take 4 ++ ((data.drop 4).take 4 ++ data.drop 8) = data := by
      rw [show data.drop 8 = (data.drop 4).drop 4 by rw [List.drop_drop], List.take_append_drop,
        List.take_append_drop]
    rwa [hbytes] at hdata

theorem decode_iff {data : Bytes} {xs : List Bytes} :
    decode data = .ok xs ↔ Whole data ∧ xs = (members data).map Bytes.decimal := by
  rw [decode_eq_ok_iff]
  constructor
  · rintro ⟨zs, hform, rfl⟩
    obtain ⟨hwhole, rfl⟩ := form_iff.mp hform
    exact ⟨hwhole, rfl⟩
  · rintro ⟨hwhole, rfl⟩
    exact ⟨_, form_iff.mpr ⟨hwhole, rfl⟩, rfl⟩

theorem exists_error {data : Bytes} (h : ¬ Whole data) :
    ∃ e, decode data = .error e ∧ e.Within "intset" data.length :=
  elements_within.exists_error fun _ hx => h (decode_iff.mp hx).1

theorem decode_written {w : Nat} (hw : w ∈ widths) {zs : List Int} (hcount : zs.length < 2 ^ 32)
    (hfits : ∀ z ∈ zs, Bytes.FitsSigned w z) (rest : Bytes) :
    decode (written w zs ++ rest) = .ok (zs.map Bytes.decimal) := by
  have hform := Form.intro rest hw hcount (sequence_memberForm_iff.mpr ⟨hfits, rfl⟩)
  rw [written, List.append_assoc, List.append_assoc]
  exact decode_eq_ok_iff.mpr ⟨zs, hform, rfl⟩

theorem map_decimal_inj {ys zs : List Int} (h : ys.map Bytes.decimal = zs.map Bytes.decimal) :
    ys = zs :=
  (List.map_inj_right fun _ _ => Bytes.decimal_inj).mp h

/-- **Intsets are decoded exactly.** The intsets that are decoded are the whole ones, and give the
decimal texts of their members in stored order; all other bytes are refused with an error about
them, whatever count they tell. Integers that are written in a width that holds them are decoded to
their texts, whatever follows, and to the same ones in every such width. Intsets with different
members are decoded to different texts. -/
theorem members_exact :
    (∀ data xs, decode data = .ok xs ↔ Whole data ∧ xs = (members data).map Bytes.decimal) ∧
    (∀ data, ¬ Whole data → ∃ e, decode data = .error e ∧ e.Within "intset" data.length) ∧
    (∀ w ∈ widths, ∀ zs : List Int, zs.length < 2 ^ 32 → (∀ z ∈ zs, Bytes.FitsSigned w z) →
      ∀ rest, decode (written w zs ++ rest) = .ok (zs.map Bytes.decimal)) ∧
    (∀ w ∈ widths, ∀ w' ∈ widths, ∀ zs : List Int, zs.length < 2 ^ 32 →
      (∀ z ∈ zs, Bytes.FitsSigned w z ∧ Bytes.FitsSigned w' z) →
        decode (written w zs) = decode (written w' zs)) ∧
    ∀ data data' xs xs', decode data = .ok xs → decode data' = .ok xs' →
      members data ≠ members data' → xs ≠ xs' := by
  refine ⟨fun data xs => decode_iff, fun data => exists_error,
    fun w hw zs hcount hfits rest => decode_written hw hcount hfits rest,
    fun w hw w' hw' zs hcount hfits => ?_, fun data data' xs xs' h h' hne heq => ?_⟩
  · have hsame := decode_written hw hcount (fun z hz => (hfits z hz).1) []
    have hsame' := decode_written hw' hcount (fun z hz => (hfits z hz).2) []
    rw [List.append_nil] at hsame hsame'
    rw [hsame, hsame']
  · obtain ⟨-, rfl⟩ := decode_iff.mp h
    obtain ⟨-, rfl⟩ := decode_iff.mp h'
    exact hne (map_decimal_inj heq)

/-- The same two integers in two bytes each and in eight, the first of them below zero; an intset
that tells of more members than it has; and one that has others. -/
theorem members_exact_widened :
    decode [2, 0, 0, 0, 2, 0, 0, 0, 0xFF, 0xFF, 7, 0] = .ok [[0x2D, 0x31], [0x37]] ∧
      decode (written 2 [-1, 7]) = decode (written 8 [-1, 7]) ∧
      (∃ e, decode [2, 0, 0, 0, 3, 0, 0, 0, 0xFF, 0xFF, 7, 0] = .error e ∧
        e.Within "intset" 12) ∧
      ([[0x2D, 0x31], [0x37]] : List Bytes) ≠ [[0x37], [0x2D, 0x31]] := by
  obtain ⟨hdecode, hrefuse, hwritten, hwidth, hdiffer⟩ := members_exact
  have hfits : ∀ z ∈ [-1, 7], Bytes.FitsSigned 2 z ∧ Bytes.FitsSigned 8 z := by decide
  have hturned : ∀ z ∈ [7, -1], Bytes.FitsSigned 2 z := by decide
  have hone := (hdecode [2, 0, 0, 0, 2, 0, 0, 0, 0xFF, 0xFF, 7, 0] [[0x2D, 0x31], [0x37]]).mpr
    (by decide)
  have htwo := hwritten 2 (by decide) [7, -1] (by decide) hturned []
  exact ⟨hone, hwidth 2 (by decide) 8 (by decide) [-1, 7] (by decide) hfits,
    hrefuse _ (by decide), hdiffer _ _ _ _ hone htwo (by decide)⟩

end Intset

end RedisDump
