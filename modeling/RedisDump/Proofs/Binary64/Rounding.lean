import Mathlib.Algebra.Order.Field.Power
import Mathlib.Tactic.Linarith
import Mathlib.Tactic.LinearCombination
import Mathlib.Tactic.NormNum
import Mathlib.Tactic.Positivity
import Mathlib.Tactic.Ring
import RedisDump.Binary64.Basic

/-!
# Rounding to doubles

The patterns of the doubles without a sign bit are ordered as their values are, and each is followed
at the distance of a unit of its last place (`Binary64.magnitude_succ`). A number is rounded to the
pattern of the nearest of these values, and to the even one of two that are equally near
(`Binary64.Nearest`); there is one such pattern at most (`Binary64.Nearest.unique`). The numbers that
are rounded to a double lie between the middles of the gaps beside it
(`Binary64.nearest_iff_within`).
-/

namespace RedisDump.Binary64

/-! ### Patterns and their values -/

/-- The pattern of the infinity without a sign. Those above it are not numbers. -/
def infinityBits : Nat := 2047 * 2 ^ 52

/-- The mantissa of a pattern without a sign, with its leading bit. -/
def significand (k : Nat) : Nat :=
  if k / 2 ^ 52 = 0 then k % 2 ^ 52 else leadingBit + k % 2 ^ 52

/-- The exponent of a unit of the mantissa. -/
def exponent (k : Nat) : Int :=
  minExponent + ((k / 2 ^ 52 - 1 : Nat) : Int)

/-- The value of a pattern without a sign. To the infinity it gives the power of two that follows
the finite values. -/
def magnitude (k : Nat) : ℚ :=
  significand k * 2 ^ exponent k

/-- The fields of a pattern are those of its value, with the sign bit apart. -/
theorem ofBits_eq {bits : Nat} (h : bits < 2 ^ 64) : ofBits bits =
    if infinityBits < bits % 2 ^ 63 then .nan
    else if bits % 2 ^ 63 = infinityBits then .infinity (decide (2 ^ 63 ≤ bits))
    else .finite (decide (2 ^ 63 ≤ bits)) (significand (bits % 2 ^ 63))
      (exponent (bits % 2 ^ 63)) := by
  have hsign : (bits / 2 ^ 63 % 2 == 1) = decide (2 ^ 63 ≤ bits) := by
    rw [Bool.eq_iff_iff, beq_iff_eq, decide_eq_true_eq]
    omega
  have hfield : bits % 2 ^ 63 / 2 ^ 52 = bits / 2 ^ 52 % 2 ^ 11 := by omega
  have hfraction : bits % 2 ^ 63 % 2 ^ 52 = bits % 2 ^ 52 := by omega
  simp only [ofBits, significand, exponent, infinityBits, hsign, hfield, hfraction]
  by_cases hspecial : bits / 2 ^ 52 % 2 ^ 11 = 2047
  · rw [if_pos hspecial]
    by_cases hzero : bits % 2 ^ 52 = 0
    · rw [if_pos hzero, if_neg (by omega), if_pos (by omega)]
    · rw [if_neg hzero, if_pos (by omega)]
  · have hle : ¬ 2047 * 2 ^ 52 < bits % 2 ^ 63 := by omega
    have hne : bits % 2 ^ 63 ≠ 2047 * 2 ^ 52 := by omega
    rw [if_neg hspecial, if_neg hle, if_neg hne]
    by_cases hsub : bits / 2 ^ 52 % 2 ^ 11 = 0
    · rw [if_pos hsub, if_pos hsub, hsub]
      rfl
    · rw [if_neg hsub, if_neg hsub]

/-- A pattern and the next one have the same exponent, or the mantissa starts again at its leading
bit. -/
theorem succ_cases (k : Nat) :
    exponent (k + 1) = exponent k ∧ significand (k + 1) = significand k + 1 ∧
        ¬ (significand (k + 1) = leadingBit ∧ minExponent < exponent (k + 1)) ∨
      exponent (k + 1) = exponent k + 1 ∧ significand (k + 1) = leadingBit ∧
        significand k + 1 = 2 * leadingBit := by
  simp only [significand, exponent, leadingBit]
  by_cases hcarry : k % 2 ^ 52 + 1 < 2 ^ 52
  · have hdiv : (k + 1) / 2 ^ 52 = k / 2 ^ 52 := by omega
    have hmod : (k + 1) % 2 ^ 52 = k % 2 ^ 52 + 1 := by omega
    rw [hdiv, hmod]
    refine .inl ⟨rfl, ?_, ?_⟩
    · split <;> rfl
    · split <;> omega
  · have hdiv : (k + 1) / 2 ^ 52 = k / 2 ^ 52 + 1 := by omega
    have hmod : (k + 1) % 2 ^ 52 = 0 := by omega
    rw [hdiv, hmod, if_neg (Nat.succ_ne_zero _)]
    by_cases hfirst : k / 2 ^ 52 = 0
    · rw [if_pos hfirst, hfirst]
      exact .inl (by omega)
    · rw [if_neg hfirst]
      exact .inr (by omega)

theorem magnitude_succ (k : Nat) : magnitude (k + 1) = magnitude k + 2 ^ exponent k := by
  obtain ⟨hexp, hsig, -⟩ | ⟨hexp, hsig, hsig'⟩ := succ_cases k
  · rw [magnitude, magnitude, hexp, hsig]
    push_cast
    ring
  · have hcast : (significand k : ℚ) + 1 = 2 * leadingBit := by exact_mod_cast hsig'
    rw [magnitude, magnitude, hexp, hsig, zpow_add_one₀ two_ne_zero]
    linear_combination (-2 ^ exponent k : ℚ) * hcast

theorem magnitude_strictMono : StrictMono magnitude := by
  refine strictMono_nat_of_lt_succ fun k => ?_
  rw [magnitude_succ]
  exact lt_add_of_pos_right _ (by positivity)

theorem significand_mod_two (k : Nat) : significand k % 2 = k % 2 := by
  rw [significand, leadingBit]
  split <;> omega

theorem significand_pos {k : Nat} (h : 0 < k) : 0 < significand k := by
  rw [significand, leadingBit]
  split <;> omega

/-! ### The nearest pattern -/

/-- The pattern to which a number that is not negative is rounded: that of the nearest value, and
the even one of two that are equally near. -/
structure Nearest (x : ℚ) (k : Nat) : Prop where
  le_infinity : k ≤ infinityBits
  le_abs : ∀ j ≤ infinityBits, |x - magnitude k| ≤ |x - magnitude j|
  even_of_tie : ∀ j ≤ infinityBits, j ≠ k → |x - magnitude k| = |x - magnitude j| → k % 2 = 0

/-- Of two values the greater is nearer to the numbers above their middle. -/
theorem abs_sub_le_iff_above {a b x : ℚ} (h : a < b) : |x - b| ≤ |x - a| ↔ a + b ≤ 2 * x := by
  have hfactor : (x - a) ^ 2 - (x - b) ^ 2 = (b - a) * (2 * x - (a + b)) := by ring
  rw [← sq_le_sq, ← sub_nonneg, hfactor, mul_nonneg_iff_of_pos_left (sub_pos.mpr h), sub_nonneg]

/-- Of two values the smaller is nearer to the numbers below their middle. -/
theorem abs_sub_le_iff_below {a b x : ℚ} (h : a < b) : |x - a| ≤ |x - b| ↔ 2 * x ≤ a + b := by
  have hfactor : (x - b) ^ 2 - (x - a) ^ 2 = (b - a) * (a + b - 2 * x) := by ring
  rw [← sq_le_sq, ← sub_nonneg, hfactor, mul_nonneg_iff_of_pos_left (sub_pos.mpr h), sub_nonneg]

theorem nearest_zero : Nearest 0 0 where
  le_infinity := Nat.zero_le _
  le_abs j _ := by
    rw [magnitude, significand]
    simp
  even_of_tie _ _ _ _ := rfl

/-- A number is rounded to one pattern only. -/
theorem Nearest.unique {x : ℚ} {j k : Nat} (hj : Nearest x j) (hk : Nearest x k) : j = k := by
  wlog hle : j ≤ k generalizing j k
  · exact (this hk hj (Nat.le_of_lt (Nat.not_le.mp hle))).symm
  by_contra hne
  have htie := le_antisymm (hj.le_abs k hk.le_infinity) (hk.le_abs j hj.le_infinity)
  have hjeven := hj.even_of_tie k hk.le_infinity (Ne.symm hne) htie
  have hkeven := hk.even_of_tie j hj.le_infinity hne htie.symm
  -- two even patterns have another one between them, which is nearer
  have hlow : magnitude j < magnitude (j + 1) := magnitude_strictMono (Nat.lt_succ_self j)
  have hhigh : magnitude (j + 1) < magnitude k := magnitude_strictMono (by omega)
  have hle : j + 1 ≤ infinityBits := Nat.le_trans (by omega) hk.le_infinity
  have hbelow := (abs_sub_le_iff_below hlow).mp (hj.le_abs (j + 1) hle)
  have habove := (abs_sub_le_iff_above hhigh).mp (hk.le_abs (j + 1) hle)
  linarith

/-! ### The numbers that are rounded to a double -/

/-- The number of quarters of a unit from the double `m * 2 ^ q` down to the middle of the gap below
it. At a power of two the next smaller double is nearer. -/
def quartersBelow (m : Nat) (q : Int) : Nat :=
  if m = leadingBit ∧ minExponent < q then 1 else 2

/-- The middle of the gap below `m * 2 ^ q`. -/
def lowEnd (m : Nat) (q : Int) : ℚ :=
  (4 * m - quartersBelow m q) * 2 ^ (q - 2)

/-- The middle of the gap above `m * 2 ^ q`. -/
def highEnd (m : Nat) (q : Int) : ℚ :=
  (4 * m + 2) * 2 ^ (q - 2)

/-- The number lies between the middles of the gaps beside `m * 2 ^ q`; they are among these numbers
exactly when `m` is even. -/
@[mk_iff]
structure Within (m : Nat) (q : Int) (x : ℚ) : Prop where
  low_le : lowEnd m q ≤ x
  le_high : x ≤ highEnd m q
  ne_of_odd : m % 2 = 1 → x ≠ lowEnd m q ∧ x ≠ highEnd m q

/-- A unit has four quarters. -/
theorem two_zpow_eq (q : Int) : (2 : ℚ) ^ q = 4 * 2 ^ (q - 2) := by
  rw [zpow_sub₀ two_ne_zero]
  norm_num
  ring

theorem magnitude_add_succ (k : Nat) :
    magnitude k + magnitude (k + 1) = 2 * highEnd (significand k) (exponent k) := by
  rw [magnitude_succ, magnitude, highEnd, two_zpow_eq]
  ring

/-- The gap above a pattern is the one below the next. -/
theorem highEnd_eq_lowEnd (k : Nat) : highEnd (significand k) (exponent k) =
    lowEnd (significand (k + 1)) (exponent (k + 1)) := by
  rw [highEnd, lowEnd, quartersBelow]
  obtain ⟨hexp, hsig, hno⟩ | ⟨hexp, hsig, hsig'⟩ := succ_cases k
  · rw [if_neg hno, hexp, hsig]
    push_cast
    ring
  · have hmin : minExponent < exponent (k + 1) := by
      rw [hexp, exponent]
      omega
    have hcast : (significand k : ℚ) + 1 = 2 * leadingBit := by exact_mod_cast hsig'
    have hpow : (2 : ℚ) ^ (exponent (k + 1) - 2) = 2 * 2 ^ (exponent k - 2) := by
      rw [hexp, add_sub_right_comm, zpow_add_one₀ two_ne_zero, mul_comm]
    rw [if_pos ⟨hsig, hmin⟩, hsig, hpow]
    push_cast
    linear_combination (4 * 2 ^ (exponent k - 2) : ℚ) * hcast

section

variable {x : ℚ} {j : Nat} (hfin : j + 1 < infinityBits)

include hfin

/-- Only numbers between the middles are nearest to a double, and at a middle only the even one of
two is taken. -/
theorem Nearest.within (h : Nearest x (j + 1)) :
    Within (significand (j + 1)) (exponent (j + 1)) x := by
  have hlow := magnitude_add_succ j
  have hhigh := magnitude_add_succ (j + 1)
  have hparity := significand_mod_two (j + 1)
  rw [highEnd_eq_lowEnd] at hlow
  have hbelow : magnitude j < magnitude (j + 1) := magnitude_strictMono (Nat.lt_succ_self j)
  have habove : magnitude (j + 1) < magnitude (j + 2) := magnitude_strictMono (Nat.lt_succ_self _)
  have hnearBelow := h.le_abs j (by omega)
  have hnearAbove := h.le_abs (j + 2) (by omega)
  refine ⟨?_, ?_, fun hodd => ⟨?_, ?_⟩⟩
  · linarith [(abs_sub_le_iff_above hbelow).mp hnearBelow]
  · linarith [(abs_sub_le_iff_below habove).mp hnearAbove]
  · rintro rfl
    have hback := (abs_sub_le_iff_below hbelow).mpr hlow.ge
    have := h.even_of_tie j (by omega) (by omega) (le_antisymm hnearBelow hback)
    omega
  · rintro rfl
    have hback := (abs_sub_le_iff_above habove).mpr hhigh.le
    have := h.even_of_tie (j + 2) (by omega) (by omega) (le_antisymm hnearAbove hback)
    omega

/-- To a number between the middles no other double is nearer, and none is as near but at a
middle. -/
theorem Within.nearest (h : Within (significand (j + 1)) (exponent (j + 1)) x) :
    Nearest x (j + 1) := by
  have hlow := magnitude_add_succ j
  have hhigh := magnitude_add_succ (j + 1)
  have hparity := significand_mod_two (j + 1)
  have hmono := magnitude_strictMono.monotone
  obtain ⟨hlowx, hxhigh, hopen⟩ := h
  rw [highEnd_eq_lowEnd] at hlow
  refine ⟨Nat.le_of_lt hfin, fun i _ => ?_, fun i _ hne htie => ?_⟩
  · obtain hi | rfl | hi := Nat.lt_trichotomy i (j + 1)
    · have := hmono (Nat.le_of_lt_succ hi)
      exact (abs_sub_le_iff_above (magnitude_strictMono hi)).mpr (by linarith)
    · exact le_refl _
    · have := hmono (show j + 2 ≤ i from hi)
      exact (abs_sub_le_iff_below (magnitude_strictMono hi)).mpr (by linarith)
  · by_contra hodd
    obtain ⟨hnotLow, hnotHigh⟩ := hopen (by omega)
    obtain hi | hi := Nat.lt_or_gt_of_ne hne
    · have := hmono (Nat.le_of_lt_succ hi)
      have := (abs_sub_le_iff_below (magnitude_strictMono hi)).mp htie.ge
      exact hnotLow (by linarith)
    · have := hmono (show j + 2 ≤ i from hi)
      have := (abs_sub_le_iff_above (magnitude_strictMono hi)).mp htie.ge
      exact hnotHigh (by linarith)

end

/-- **The numbers that are rounded to a finite double** are those between the middles of the gaps
beside it. -/
theorem nearest_iff_within {x : ℚ} {k : Nat} (hpos : 0 < k) (hfin : k < infinityBits) :
    Nearest x k ↔ Within (significand k) (exponent k) x := by
  obtain ⟨j, rfl⟩ := Nat.exists_eq_add_one.mpr hpos
  exact ⟨Nearest.within hfin, Within.nearest hfin⟩

section

variable {m : Nat} {q : Int} {x y z : ℚ}

theorem quartersBelow_le_two (m : Nat) (q : Int) : quartersBelow m q ≤ 2 := by
  rw [quartersBelow]
  split <;> decide

theorem Within.between (hx : Within m q x) (hz : Within m q z) (hxy : x ≤ y) (hyz : y ≤ z) :
    Within m q y := by
  refine ⟨hx.low_le.trans hxy, hyz.trans hz.le_high, fun hodd => ⟨?_, ?_⟩⟩
  · rintro rfl
    exact (hx.ne_of_odd hodd).1 (le_antisymm hxy hx.low_le)
  · rintro rfl
    exact (hz.ne_of_odd hodd).2 (le_antisymm hz.le_high hyz)

/-- A double is rounded to itself. -/
theorem within_self (m : Nat) (q : Int) : Within m q (m * 2 ^ q) := by
  have hunit : (0 : ℚ) < 2 ^ (q - 2) := by positivity
  have hbelow : (0 : ℚ) < quartersBelow m q := by
    rw [quartersBelow]
    split <;> norm_num
  have hvalue : (m * 2 ^ q : ℚ) = 4 * m * 2 ^ (q - 2) := by
    rw [two_zpow_eq]
    ring
  have hlow : lowEnd m q < m * 2 ^ q := by
    rw [hvalue]
    exact mul_lt_mul_of_pos_right (by linarith) hunit
  have hhigh : (m * 2 ^ q : ℚ) < highEnd m q := by
    rw [hvalue]
    exact mul_lt_mul_of_pos_right (by linarith) hunit
  exact ⟨hlow.le, hhigh.le, fun _ => ⟨hlow.ne', hhigh.ne⟩⟩

theorem Within.pos (hm : 0 < m) (hx : Within m q x) : 0 < x := by
  have hunit : (0 : ℚ) < 2 ^ (q - 2) := by positivity
  have hm' : (1 : ℚ) ≤ m := by exact_mod_cast hm
  have hbelow : (quartersBelow m q : ℚ) ≤ 2 := by exact_mod_cast quartersBelow_le_two m q
  have hlow : (0 : ℚ) < 4 * m - quartersBelow m q := by linarith
  exact lt_of_lt_of_le (mul_pos hlow hunit) hx.low_le

end

end RedisDump.Binary64
