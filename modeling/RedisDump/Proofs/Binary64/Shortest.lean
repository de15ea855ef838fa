import RedisDump.Binary64.Shortest
import RedisDump.Proofs.Binary64.Rounding

/-!
# The shortest decimal of a double

A grid compares the multiples of a power of ten with a double in whole numbers, and tells just which
of them are rounded to it (`Binary64.Grid.holds_iff`). The search goes down the grids to the first
that has such a multiple (`Binary64.search_found`). So the decimal that it ends with is rounded to
the double (`Binary64.within_shortest`), and no other one that is has fewer digits
(`Binary64.shortest_minimal`).
-/

namespace RedisDump.Binary64

/-- The number that a decimal denotes. -/
def Decimal.value (d : Decimal) : ℚ :=
  d.digits * 10 ^ d.exponent

variable {m n : Nat} {q p : Int}

/-! ### The numbers of a grid -/

/-- The whole numbers of a grid count parts of one; this is how many of them make it up. -/
def Grid.parts (q p : Int) : ℚ :=
  2 ^ (-(q - 2)).toNat * 10 ^ (-p).toNat

theorem zpow_mul_pow_toNat_neg {a : ℚ} (ha : a ≠ 0) (z : Int) :
    a ^ z * a ^ (-z).toNat = a ^ z.toNat := by
  rw [← zpow_natCast, ← zpow_natCast, ← zpow_add₀ ha]
  congr 1
  omega

namespace Grid

theorem parts_pos (q p : Int) : 0 < parts q p := by
  unfold parts
  positivity

theorem cast_step (m : Nat) (q p : Int) : ((of m q p).step : ℚ) = 10 ^ p * parts q p := by
  have hten := zpow_mul_pow_toNat_neg (a := 10) (by norm_num) p
  rw [of, parts]
  push_cast
  rw [← hten]
  ring

theorem cast_scale (q p : Int) :
    ((2 ^ (q - 2).toNat * 10 ^ (-p).toNat : Nat) : ℚ) = 2 ^ (q - 2) * parts q p := by
  have htwo := zpow_mul_pow_toNat_neg (a := 2) two_ne_zero (q - 2)
  rw [parts]
  push_cast
  rw [← htwo]
  ring

theorem cast_value (m : Nat) (q p : Int) :
    ((of m q p).value : ℚ) = m * 2 ^ q * parts q p := by
  rw [of, Nat.cast_mul, cast_scale, two_zpow_eq q]
  push_cast
  ring

theorem cast_low (hm : 0 < m) (q p : Int) :
    ((of m q p).low : ℚ) = lowEnd m q * parts q p := by
  have hle : quartersBelow m q ≤ 4 * m := Nat.le_trans (quartersBelow_le_two m q) (by omega)
  have hlow : (of m q p).low =
    (4 * m - quartersBelow m q) * (2 ^ (q - 2).toNat * 10 ^ (-p).toNat) := rfl
  rw [hlow, Nat.cast_mul, cast_scale, Nat.cast_sub hle, lowEnd]
  push_cast
  ring

theorem cast_high (m : Nat) (q p : Int) :
    ((of m q p).high : ℚ) = highEnd m q * parts q p := by
  rw [of, Nat.cast_mul, cast_scale, highEnd]
  push_cast
  ring

theorem step_pos (m : Nat) (q p : Int) : 0 < (of m q p).step := by
  rw [of]
  positivity

theorem cast_multiple (m : Nat) (q p : Int) (n : Nat) :
    ((n * (of m q p).step : Nat) : ℚ) = n * 10 ^ p * parts q p := by
  rw [Nat.cast_mul, cast_step]
  ring

/-- Whole numbers of a grid are ordered as the numbers that they stand for. -/
theorem le_iff {a b : Nat} {x y : ℚ} (ha : (a : ℚ) = x * parts q p) (hb : (b : ℚ) = y * parts q p) :
    a ≤ b ↔ x ≤ y := by
  rw [← Nat.cast_le (α := ℚ), ha, hb, mul_le_mul_iff_left₀ (parts_pos q p)]

theorem eq_iff {a b : Nat} {x y : ℚ} (ha : (a : ℚ) = x * parts q p) (hb : (b : ℚ) = y * parts q p) :
    a = b ↔ x = y := by
  rw [← Nat.cast_inj (R := ℚ), ha, hb, mul_left_inj' (parts_pos q p).ne']

/-- The multiples that hold are those that are rounded to the double. -/
theorem holds_iff (hm : 0 < m) :
    (of m q p).holds (m % 2 == 0) n = true ↔ Within m q (n * 10 ^ p) := by
  have hmultiple := cast_multiple m q p n
  have hlow := cast_low hm q p
  have hhigh := cast_high m q p
  rw [within_iff, ← le_iff hlow hmultiple, ← le_iff hmultiple hhigh, Ne, Ne,
    ← eq_iff hmultiple hlow, ← eq_iff hmultiple hhigh, holds]
  obtain heven | hodd := Nat.mod_two_eq_zero_or_one m
  · simp only [heven, BEq.rfl, if_true, Bool.and_eq_true, decide_eq_true_eq]
    exact ⟨fun h => ⟨h.1, h.2, fun h => absurd h Nat.zero_ne_one⟩, fun h => ⟨h.1, h.2.1⟩⟩
  · have hopen : (1 == 0) = false := rfl
    simp only [hodd, hopen, Bool.false_eq_true, if_false, Bool.and_eq_true, decide_eq_true_eq,
      forall_const]
    omega

theorem holds_of_choose? {g : Grid} {closed : Bool} (h : g.choose? closed = some n) :
    g.holds closed n = true ∧ n ≤ g.value / g.step + 1 := by
  unfold choose? at h
  dsimp only at h
  split at h
  · rename_i hn hn'
    split at h
    · cases h
      exact ⟨hn, Nat.le_succ _⟩
    · split at h
      · cases h
        exact ⟨hn', Nat.le_refl _⟩
      · split at h
        · cases h
          exact ⟨hn, Nat.le_succ _⟩
        · cases h
          exact ⟨hn', Nat.le_refl _⟩
  · rename_i hn _
    cases h
    exact ⟨hn, Nat.le_succ _⟩
  · rename_i _ hn'
    cases h
    exact ⟨hn', Nat.le_refl _⟩
  · cases h

theorem not_holds_of_choose? {g : Grid} {closed : Bool} (h : g.choose? closed = none) :
    g.holds closed (g.value / g.step) = false ∧
      g.holds closed (g.value / g.step + 1) = false := by
  unfold choose? at h
  dsimp only at h
  split at h
  · split at h
    · cases h
    · split at h
      · cases h
      · split at h <;> cases h
  · cases h
  · cases h
  · rename_i hn hn'
    exact ⟨hn, hn'⟩

/-- The value lies between the two multiples that are tried. -/
theorem div_step_le (m : Nat) (q p : Int) :
    ((of m q p).value / (of m q p).step : Nat) * (10 : ℚ) ^ p ≤ m * 2 ^ q ∧
      m * 2 ^ q < (((of m q p).value / (of m q p).step + 1 : Nat) : ℚ) * 10 ^ p := by
  have hvalue := cast_value m q p
  have hlow := Nat.div_mul_le_self (of m q p).value (of m q p).step
  have hhigh := (Nat.div_lt_iff_lt_mul (step_pos m q p)).mp
    (Nat.lt_succ_self ((of m q p).value / (of m q p).step))
  rw [← not_le, le_iff (cast_multiple m q p _) hvalue, not_le] at hhigh
  exact ⟨(le_iff (cast_multiple m q p _) hvalue).mp hlow, hhigh⟩

/-- On a grid without a choice no multiple is rounded to the double. -/
theorem not_within_of_choose? (hm : 0 < m) (h : (of m q p).choose? (m % 2 == 0) = none) (n : Nat) :
    ¬ Within m q (n * 10 ^ p) := by
  intro hn
  have hself := within_self m q
  obtain ⟨hbelow, habove⟩ := div_step_le m q p
  obtain ⟨hno, hno'⟩ := not_holds_of_choose? h
  have hten : (0 : ℚ) < 10 ^ p := by positivity
  -- one of the two multiples beside the value lies between it and the multiple in question
  obtain hle | hgt := Nat.lt_or_ge n ((of m q p).value / (of m q p).step + 1)
  · have hnext : (n : ℚ) * 10 ^ p ≤ ((of m q p).value / (of m q p).step : Nat) * 10 ^ p :=
      mul_le_mul_of_nonneg_right (by exact_mod_cast Nat.le_of_lt_succ hle) hten.le
    rw [(holds_iff hm).mpr (hn.between hself hnext hbelow)] at hno
    cases hno
  · have hnext : (((of m q p).value / (of m q p).step + 1 : Nat) : ℚ) * 10 ^ p ≤ n * 10 ^ p :=
      mul_le_mul_of_nonneg_right (by exact_mod_cast hgt) hten.le
    rw [(holds_iff hm).mpr (hself.between hn habove.le hnext)] at hno'
    cases hno'

end Grid

/-! ### The search -/

/-- The digits of a double on the last grid, on which it lies itself. -/
def exactDigits (m : Nat) (q : Int) : Nat :=
  m * 2 ^ q.toNat * 5 ^ (-q).toNat

theorem exactDigits_pos (hm : 0 < m) (q : Int) : 0 < exactDigits m q := by
  unfold exactDigits
  positivity

theorem cast_exactDigits (m : Nat) (q : Int) :
    exactDigits m q * (10 : ℚ) ^ min q 0 = m * 2 ^ q := by
  rw [exactDigits]
  push_cast
  obtain hq | hq := le_total 0 q
  · have hneg : (-q).toNat = 0 := by omega
    have hpow : (2 : ℚ) ^ q = 2 ^ q.toNat := by
      rw [← zpow_natCast, Int.toNat_of_nonneg hq]
    rw [min_eq_right hq, hneg, hpow]
    ring
  · have hnat : q.toNat = 0 := by omega
    have hpow := zpow_mul_pow_toNat_neg (a := 5) (by norm_num) q
    have hten : (10 : ℚ) ^ q = 2 ^ q * 5 ^ q := by
      rw [← mul_zpow]
      norm_num
    rw [hnat, pow_zero] at hpow
    rw [min_eq_left hq, hnat, hten]
    linear_combination (m * 2 ^ q : ℚ) * hpow

theorem search_zero (m : Nat) (q : Int) :
    search m q 0 (min q 0) = { digits := exactDigits m q, exponent := min q 0 } := by
  have hvalue : (Grid.of m q (min q 0)).value =
      exactDigits m q * (Grid.of m q (min q 0)).step := by
    rw [← Nat.cast_inj (R := ℚ), Nat.cast_mul, Grid.cast_value, Grid.cast_step, ← mul_assoc,
      cast_exactDigits]
  rw [search, hvalue, Nat.mul_div_cancel _ (Grid.step_pos m q _)]

/-- A decimal is the first one, on the grids from `10 ^ top` downward, that is rounded to the double
`m * 2 ^ q`, and lies beside it. -/
structure Found (m : Nat) (q top : Int) (d : Decimal) : Prop where
  within : Within m q d.value
  le_top : d.exponent ≤ top
  first : ∀ (n : Nat) (p : Int), d.exponent < p → p ≤ top → ¬ Within m q (n * 10 ^ p)
  near : d.value ≤ m * 2 ^ q + 10 ^ d.exponent

/-- A multiple that is chosen on a grid is found on it. -/
theorem found_of_choose? (hm : 0 < m) (h : (Grid.of m q p).choose? (m % 2 == 0) = some n) :
    Found m q p { digits := n, exponent := p } := by
  obtain ⟨hholds, hle⟩ := Grid.holds_of_choose? h
  refine ⟨(Grid.holds_iff hm).mp hholds, le_refl _,
    fun n p hlt hle => absurd hle (not_le.mpr hlt), ?_⟩
  have hten : (0 : ℚ) < 10 ^ p := by positivity
  have hbelow := (Grid.div_step_le m q p).1
  have hcast : (n : ℚ) ≤ _ := Nat.cast_le.mpr hle
  rw [Nat.cast_succ] at hcast
  rw [Decimal.value]
  linarith [mul_le_mul_of_nonneg_right hcast hten.le]

/-- A decimal that is found below a grid without a choice is found from this grid on. -/
theorem Found.of_choose? {top : Int} {d : Decimal} (h : Found m q (top - 1) d) (hm : 0 < m)
    (hnone : (Grid.of m q top).choose? (m % 2 == 0) = none) : Found m q top d := by
  refine ⟨h.within, h.le_top.trans (by omega), fun n p hlt hle => ?_, h.near⟩
  obtain hp | rfl := lt_or_eq_of_le hle
  · exact h.first n p hlt (by omega)
  · exact Grid.not_within_of_choose? hm hnone n

theorem search_found (hm : 0 < m) (q : Int) (levels : Nat) :
    Found m q (min q 0 + levels) (search m q levels (min q 0 + levels)) := by
  induction levels with
  | zero =>
    have hexact : (Decimal.mk (exactDigits m q) (min q 0)).value = m * 2 ^ q :=
      cast_exactDigits m q
    rw [Nat.cast_zero, add_zero, search_zero]
    refine ⟨?_, le_refl _, fun n p hlt hle => absurd hle (not_le.mpr hlt), ?_⟩
    · rw [hexact]
      exact within_self m q
    · rw [hexact]
      exact le_add_of_nonneg_right (by positivity)
  | succ levels ih =>
    have hprev : min q 0 + levels = min q 0 + ((levels + 1 : Nat) : Int) - 1 := by
      push_cast
      omega
    rw [hprev] at ih
    rw [search]
    split
    · rename_i n hn
      exact found_of_choose? hm hn
    · rename_i hnone
      exact ih.of_choose? hm hnone

/-! ### The fewest digits -/

/-- A multiple of a power of ten is one of every smaller power. -/
theorem shifted_value {e p : Int} (n : Nat) (h : p ≤ e) :
    ((n * 10 ^ (e - p).toNat : Nat) : ℚ) * 10 ^ p = n * 10 ^ e := by
  have hpow : (10 : ℚ) ^ (e - p).toNat = 10 ^ (e - p) := by
    rw [← zpow_natCast, Int.toNat_of_nonneg (by omega)]
  rw [Nat.cast_mul, Nat.cast_pow, Nat.cast_ofNat, hpow, mul_assoc, ← zpow_add₀ (by norm_num)]
  congr 2
  omega

/-- A decimal with at most `k` digits is less than the power of ten that is `k` places above its
last digit. -/
theorem value_lt_iff {e : Int} {k : Nat} : (n : ℚ) * 10 ^ e < 10 ^ (k + e) ↔ n < 10 ^ k := by
  have hten : (0 : ℚ) < 10 ^ e := by positivity
  rw [zpow_add₀ (by norm_num), mul_lt_mul_iff_left₀ hten, zpow_natCast]
  exact_mod_cast Iff.rfl

theorem Within.digits_pos {e : Int} {k : Nat} (h : Within m q (n * 10 ^ e)) (hm : 0 < m)
    (hn : n < 10 ^ k) : 0 < k := by
  rw [Nat.pos_iff_ne_zero]
  rintro rfl
  have hpos := h.pos hm
  rw [Nat.lt_one_iff.mp hn, Nat.cast_zero, zero_mul] at hpos
  exact absurd hpos (lt_irrefl 0)

namespace Found

variable {top : Int} {d : Decimal} (h : Found m q top d) (hlow : (10 : ℚ) ^ top ≤ m * 2 ^ q)
  (hhigh : (m * 2 ^ q : ℚ) < 10 ^ (top + 1))

include h hlow hhigh

/-- When none of the multiples of the leading power of ten is rounded to the double, all that is
lies between two of them. -/
theorem lt_of_within (htop : d.exponent < top) {x : ℚ} (hx : Within m q x) :
    10 ^ top < x ∧ x < 10 ^ (top + 1) := by
  have hself := within_self m q
  have hnone (n : Nat) : ¬ Within m q (n * 10 ^ top) := h.first n top htop (le_refl _)
  constructor
  · by_contra hle
    refine hnone 1 ?_
    rw [Nat.cast_one, one_mul]
    exact hx.between hself (not_lt.mp hle) hlow
  · by_contra hle
    refine hnone 10 ?_
    have hten : ((10 : Nat) : ℚ) * 10 ^ top = 10 ^ (top + 1) := by
      rw [zpow_add_one₀ (by norm_num)]
      push_cast
      ring
    rw [hten]
    exact hself.between hx hhigh.le (not_lt.mp hle)

omit hlow hhigh in
theorem exponent_le (htop : d.exponent < top) {e : Int} (hwithin : Within m q (n * 10 ^ e)) :
    e ≤ d.exponent := by
  by_contra hlt
  refine h.first (n * 10 ^ (e - min e top).toNat) (min e top) (lt_min (not_le.mp hlt) htop)
    (min_le_right _ _) ?_
  rwa [shifted_value n (min_le_left e top)]

omit hlow in
/-- On the leading grid there is one digit, or the next power of ten. -/
theorem digits_le (htop : d.exponent = top) : d.digits ≤ 10 := by
  have hten : (0 : ℚ) < 10 ^ top := by positivity
  have hnear := h.near
  rw [Decimal.value, htop] at hnear
  rw [zpow_add_one₀ (by norm_num)] at hhigh
  have hmul : (d.digits : ℚ) * 10 ^ top < 11 * 10 ^ top := by linarith
  have hlt : (d.digits : ℚ) < 11 := lt_of_mul_lt_mul_right hmul hten.le
  exact Nat.le_of_lt_succ (by exact_mod_cast hlt)

/-- The decimal that is found can be written with as many digits as any other one that is rounded
to the double. -/
theorem minimal (hm : 0 < m) {e : Int} {k : Nat} (hn : n < 10 ^ k)
    (hwithin : Within m q (n * 10 ^ e)) :
    ∃ (n' : Nat) (e' : Int), n' < 10 ^ k ∧ n' * (10 : ℚ) ^ e' = d.value := by
  obtain htop | htop := h.le_top.lt_or_eq
  · have he := h.exponent_le htop hwithin
    have hother := (h.lt_of_within hlow hhigh htop hwithin).1
    have hfound := (h.lt_of_within hlow hhigh htop h.within).2
    have hplaces : top < k + e :=
      (zpow_lt_zpow_iff_right₀ (by norm_num)).mp (hother.trans (value_lt_iff.mpr hn))
    have hle : (10 : ℚ) ^ (top + 1) ≤ 10 ^ (k + d.exponent) :=
      zpow_le_zpow_right₀ (by norm_num) (by omega)
    exact ⟨d.digits, d.exponent, value_lt_iff.mp (hfound.trans_le hle), rfl⟩
  · have hk := hwithin.digits_pos hm hn
    have hpow : 10 ≤ 10 ^ k := Nat.le_self_pow (Nat.ne_of_gt hk) 10
    obtain hlt | heq := Nat.lt_or_eq_of_le (h.digits_le hhigh htop)
    · exact ⟨d.digits, d.exponent, by omega, rfl⟩
    · refine ⟨1, top + 1, by omega, ?_⟩
      rw [Decimal.value, heq, htop, zpow_add_one₀ (by norm_num)]
      push_cast
      ring

end Found

/-! ### The decimal of a double -/

theorem value_stripZeros (fuel : Nat) (d : Decimal) : (stripZeros fuel d).value = d.value := by
  induction fuel generalizing d with
  | zero => rfl
  | succ fuel ih =>
    rw [stripZeros]
    split
    · rename_i hzero
      have hdigits : d.digits = d.digits / 10 * 10 := by omega
      have hcast : (d.digits : ℚ) = (d.digits / 10 : Nat) * 10 := by exact_mod_cast hdigits
      rw [ih, Decimal.value, Decimal.value, hcast, zpow_add_one₀ (by norm_num)]
      ring
    · rfl

theorem pow_le_and_lt_pow {k : Nat} (hn : 0 < n) (h : (Nat.toDigits 10 n).length = k + 1) :
    10 ^ k ≤ n ∧ n < 10 ^ (k + 1) := by
  constructor
  · obtain rfl | hk := Nat.eq_zero_or_pos k
    · exact hn
    · rw [← not_lt, ← Nat.length_toDigits_le_iff (by decide) hk]
      omega
  · exact (Nat.length_toDigits_le_iff (by decide) (Nat.succ_pos k)).mp (Nat.le_of_eq h)

/-- The search starts on the grid of the leading digit. -/
theorem exists_shortest (hm : 0 < m) (q : Int) : ∃ (top : Int) (d : Decimal), Found m q top d ∧
    (shortest m q).value = d.value ∧ (10 : ℚ) ^ top ≤ m * 2 ^ q ∧
      (m * 2 ^ q : ℚ) < 10 ^ (top + 1) := by
  obtain ⟨levels, hlevels⟩ : ∃ levels, (Nat.toDigits 10 (exactDigits m q)).length = levels + 1 :=
    Nat.exists_eq_add_one.mpr Nat.length_toDigits_pos
  obtain ⟨hle, hlt⟩ := pow_le_and_lt_pow (exactDigits_pos hm q) hlevels
  have htop : leadingPlace m q - 1 = min q 0 + levels := by
    rw [leadingPlace, ← exactDigits, hlevels]
    push_cast
    ring
  have hsteps : (min q 0 + levels - min q 0 : Int).toNat = levels := by omega
  have hnext : min q 0 + levels + 1 = ((levels + 1 : Nat) : Int) + min q 0 := by
    push_cast
    ring
  refine ⟨min q 0 + levels, _, search_found hm q levels, ?_, ?_, ?_⟩
  · rw [shortest, htop, hsteps]
    exact value_stripZeros _ _
  · rwa [← cast_exactDigits, add_comm, ← not_lt, value_lt_iff, not_lt]
  · rwa [← cast_exactDigits, hnext, value_lt_iff]

/-- The decimal of a double is rounded to it. -/
theorem within_shortest (hm : 0 < m) (q : Int) : Within m q (shortest m q).value := by
  obtain ⟨top, d, hfound, hvalue, -⟩ := exists_shortest hm q
  rw [hvalue]
  exact hfound.within

/-- **The decimal of a double has the fewest digits** of all that are rounded to it. -/
theorem shortest_minimal (hm : 0 < m) {e : Int} {k : Nat} (hn : n < 10 ^ k)
    (h : Within m q (n * 10 ^ e)) :
    ∃ (n' : Nat) (e' : Int), n' < 10 ^ k ∧ n' * (10 : ℚ) ^ e' = (shortest m q).value := by
  obtain ⟨top, d, hfound, hvalue, hlow, hhigh⟩ := exists_shortest hm q
  rw [hvalue]
  exact hfound.minimal hlow hhigh hm hn h

end RedisDump.Binary64
