import RedisDump.Bytes.Word

/-!
# Writing numbers

The bytes of a number of a fixed width, in both orders, and of a signed number. Each is read back
as the number it was written for (`leNat_leBytes`, `beNat_beBytes`, `leInt_signedBytes`), and
written for the number that is read from it (`leBytes_leNat`, `beBytes_beNat`,
`signedBytes_leInt`). The patterns of any number of bits are read off in the same way
(`twosComplement_eq_iff`, `twosComplement_leNat`).
-/

namespace RedisDump.Bytes

/-- The `width` lowest bytes of a number, least significant byte first. -/
def leBytes : (width n : Nat) → Bytes
  | 0, _ => []
  | width + 1, n => UInt8.ofNat (n % 256) :: leBytes width (n / 256)

/-- The `width` lowest bytes of a number, most significant byte first. -/
def beBytes (width n : Nat) : Bytes :=
  (leBytes width n).reverse

/-- A number that has a two's-complement pattern of `width` bytes. -/
def FitsSigned (width : Nat) (z : Int) : Prop :=
  -(256 ^ width) ≤ 2 * z ∧ 2 * z < 256 ^ width

instance (width : Nat) (z : Int) : Decidable (FitsSigned width z) :=
  inferInstanceAs (Decidable (-(256 ^ width) ≤ 2 * z ∧ 2 * z < 256 ^ width))

/-- The two's-complement pattern of a number, least significant byte first. -/
def signedBytes (width : Nat) (z : Int) : Bytes :=
  leBytes width (z % 256 ^ width).toNat

@[simp] theorem length_leBytes (width n : Nat) : (leBytes width n).length = width := by
  induction width generalizing n with
  | zero => rfl
  | succ width ih => simp [leBytes, ih]

@[simp] theorem length_beBytes (width n : Nat) : (beBytes width n).length = width := by
  simp [beBytes]

@[simp] theorem length_signedBytes (width : Nat) (z : Int) :
    (signedBytes width z).length = width :=
  length_leBytes ..

theorem leNat_leBytes {width n : Nat} (h : n < 256 ^ width) : (leBytes width n).leNat = n := by
  induction width generalizing n with
  | zero =>
    rw [Nat.pow_zero] at h
    simp only [leBytes, leNat]
    omega
  | succ width ih =>
    rw [Nat.pow_succ] at h
    have hdiv : n / 256 < 256 ^ width := Nat.div_lt_of_lt_mul (by rwa [Nat.mul_comm])
    have hb : (UInt8.ofNat (n % 256)).toNat = n % 256 :=
      UInt8.toNat_ofNat_of_lt (Nat.mod_lt _ (by decide))
    simp only [leBytes, leNat, hb, ih hdiv]
    omega

/-- The order of bytes is turned by reversing them. -/
theorem beNat_reverse (bs : Bytes) : beNat bs.reverse = bs.leNat := by
  unfold beNat
  rw [List.foldl_reverse]
  induction bs with
  | nil => rfl
  | cons b bs ih =>
    simp only [List.foldr_cons, ih, leNat]
    omega

theorem beNat_beBytes {width n : Nat} (h : n < 256 ^ width) : (beBytes width n).beNat = n := by
  rw [beBytes, beNat_reverse, leNat_leBytes h]

theorem natCast_pow (width : Nat) : ((256 ^ width : Nat) : Int) = 256 ^ width :=
  Int.natCast_pow 256 width

/-- A signed number is the unsigned one of the same bytes, less their range when that is at least
half of it. -/
theorem leInt_eq {bs : Bytes} (h : bs ≠ []) :
    bs.leInt = if 2 * bs.leNat < 256 ^ bs.length then (bs.leNat : Int)
      else bs.leNat - 256 ^ bs.length := by
  fun_induction leInt bs with
  | case1 => exact absurd rfl h
  | case2 b =>
    have hb : b.toNat < 256 := b.toNat_lt
    by_cases hlow : b.toNat < 128
    · simp [signedByte, leNat, hlow, show 2 * b.toNat < 256 by omega]
    · simp [signedByte, leNat, hlow, show ¬ 2 * b.toNat < 256 by omega]
  | case3 b c bs ih =>
    have hb : b.toNat < 256 := b.toNat_lt
    have hl : leNat (b :: c :: bs) = b.toNat + 256 * leNat (c :: bs) := rfl
    have hw : 256 ^ (b :: c :: bs).length = 256 * (256 * 256 ^ bs.length) := by
      rw [List.length_cons, List.length_cons, Nat.pow_succ', Nat.pow_succ']
    have hw' : 256 ^ (c :: bs).length = 256 * 256 ^ bs.length := by
      rw [List.length_cons, Nat.pow_succ']
    rw [ih (List.cons_ne_nil c bs), hl, ← natCast_pow, ← natCast_pow, hw, hw']
    generalize leNat (c :: bs) = l
    generalize 256 ^ bs.length = q
    split <;> split <;> omega

theorem leInt_signedBytes {width : Nat} {z : Int} (hw : 0 < width) (h : FitsSigned width z) :
    (signedBytes width z).leInt = z := by
  obtain ⟨hlow, hhigh⟩ := h
  have hpos : 0 < 256 ^ width := Nat.pow_pos (by decide)
  have hne : signedBytes width z ≠ [] := by
    intro hnil
    have := length_signedBytes width z
    simp only [hnil, List.length_nil] at this
    omega
  rw [← natCast_pow] at hlow hhigh
  have hmod : (z % 256 ^ width).toNat < 256 ^ width := by
    rw [← natCast_pow]
    omega
  rw [leInt_eq hne, length_signedBytes, signedBytes, leNat_leBytes hmod, ← natCast_pow]
  by_cases hz : z < 0
  · have hz' : z % (256 ^ width : Nat) = z + (256 ^ width : Nat) := by
      rw [← Int.add_emod_right, Int.emod_eq_of_lt (by omega) (by omega)]
    rw [hz']
    split <;> omega
  · rw [Int.emod_eq_of_lt (by omega) (by omega)]
    split <;> omega

/-! ### Numbers and the bytes they are read from -/

/-- Bytes are written for the number that is read from them. -/
theorem leBytes_leNat (bs : Bytes) : leBytes bs.length bs.leNat = bs := by
  induction bs with
  | nil => rfl
  | cons b bs ih =>
    have hb : b.toNat < 256 := b.toNat_lt
    have hmod : (b.toNat + 256 * leNat bs) % 256 = b.toNat := by omega
    have hdiv : (b.toNat + 256 * leNat bs) / 256 = leNat bs := by omega
    rw [List.length_cons, leBytes, leNat, hmod, hdiv, ih, UInt8.ofNat_toNat]

theorem beBytes_beNat (bs : Bytes) : beBytes bs.length bs.beNat = bs := by
  have h := leBytes_leNat bs.reverse
  rw [← beNat_reverse, List.reverse_reverse, List.length_reverse] at h
  rw [beBytes, h, List.reverse_reverse]

theorem beNat_lt (bs : Bytes) : bs.beNat < 256 ^ bs.length := by
  have h := leNat_lt bs.reverse
  rwa [← beNat_reverse, List.reverse_reverse, List.length_reverse] at h

/-- The number that is read from bytes fits into as many. -/
theorem fitsSigned_leInt {bs : Bytes} (h : bs ≠ []) : FitsSigned bs.length bs.leInt := by
  have hlt := leNat_lt bs
  rw [FitsSigned, leInt_eq h, ← natCast_pow]
  split <;> constructor <;> omega

theorem signedBytes_leInt {bs : Bytes} (h : bs ≠ []) : signedBytes bs.length bs.leInt = bs := by
  have hlt := leNat_lt bs
  have hraw : (bs.leInt % 256 ^ bs.length).toNat = bs.leNat := by
    rw [leInt_eq h, ← natCast_pow]
    split
    · rw [Int.emod_eq_of_lt (by omega) (by omega), Int.toNat_natCast]
    · rw [Int.sub_emod_right, Int.emod_eq_of_lt (by omega) (by omega), Int.toNat_natCast]
  rw [signedBytes, hraw, leBytes_leNat]

theorem pow_bits (width : Nat) : 2 ^ (8 * width) = 256 ^ width := by
  rw [Nat.pow_mul]

/-- The numbers of `bits` bits are those in half their range on either side of zero, and the pattern
of each is its remainder. -/
theorem twosComplement_eq_iff {bits raw : Nat} {z : Int} (h : 0 < bits) :
    raw < 2 ^ bits ∧ twosComplement bits raw = z ↔
      (-(2 ^ (bits - 1)) ≤ z ∧ z < 2 ^ (bits - 1)) ∧ (z % 2 ^ bits).toNat = raw := by
  obtain ⟨n, rfl⟩ := Nat.exists_eq_add_one_of_ne_zero (Nat.ne_of_gt h)
  have hhalf : (2 : Int) ^ n = ((2 ^ n : Nat) : Int) := by
    rw [Int.natCast_pow]
    rfl
  have hfull : (2 : Int) ^ (n + 1) = ((2 * 2 ^ n : Nat) : Int) := by
    rw [← Nat.pow_succ', Int.natCast_pow]
    rfl
  rw [twosComplement, Nat.add_sub_cancel, hhalf, hfull, Nat.pow_succ']
  generalize 2 ^ n = half
  constructor
  · rintro ⟨hraw, rfl⟩
    split
    · rw [Int.sub_emod_right, Int.emod_eq_of_lt (by omega) (by omega)]
      omega
    · rw [Int.emod_eq_of_lt (by omega) (by omega)]
      omega
  · rintro ⟨⟨hlow, hhigh⟩, rfl⟩
    by_cases hz : z < 0
    · rw [← Int.add_emod_right, Int.emod_eq_of_lt (by omega) (by omega)]
      split <;> omega
    · rw [Int.emod_eq_of_lt (by omega) (by omega)]
      split <;> omega

/-- The two ways to read a signed number off its pattern agree on whole bytes. -/
theorem twosComplement_leNat {bs : Bytes} (h : bs ≠ []) :
    twosComplement (8 * bs.length) bs.leNat = bs.leInt := by
  have hpos : 0 < bs.length := List.length_pos_iff.mpr h
  have hhalf : 2 * 2 ^ (8 * bs.length - 1) = 256 ^ bs.length := by
    rw [← Nat.pow_succ', ← pow_bits]
    congr 1
    omega
  have hfull : (2 : Int) ^ (8 * bs.length) = ((256 ^ bs.length : Nat) : Int) := by
    rw [← pow_bits, Int.natCast_pow]
    rfl
  rw [twosComplement, leInt_eq h, hfull, ← natCast_pow]
  split <;> split <;> omega

end RedisDump.Bytes
