import RedisDump.Binary64.Notation
import RedisDump.Proofs.Binary64.Shortest
import RedisDump.Proofs.Decimal

/-!
# Decimal numerals

A numeral is read as a decimal with a sign: digits, a point and more digits, and an exponent behind
the letter `e` (`Binary64.Numeral.ofText?`). The text of a decimal, in either notation, is read as
the number that the decimal denotes (`Binary64.Decimal.exists_ofText?_text`). The significant digits
of a decimal are as many as the number it denotes needs
(`Binary64.Decimal.exists_significant`, `Binary64.Decimal.significant_le`).
-/

namespace RedisDump

open Bytes (isDigit)

namespace Binary64

/-! ### Reading numerals -/

/-- The decimal of the digits before and behind a point, times a power of ten. -/
def Decimal.ofDigits (whole fraction : Bytes) (exponent : Int) : Decimal :=
  { digits := Bytes.digitsValue (whole ++ fraction), exponent := exponent - fraction.length }

/-- The exponent at the end of a numeral, which is zero when nothing stands there. -/
def exponent? : Bytes → Option Int
  | [] => some 0
  | letter :: sign :: digits =>
    if letter = 0x65 ∧ digits ≠ [] ∧ digits.all isDigit = true then
      if sign = 0x2B then some (Bytes.digitsValue digits)
      else if sign = 0x2D then some (-Bytes.digitsValue digits)
      else none
    else none
  | _ => none

/-- The decimal that a numeral without a sign denotes. There are digits on both sides of a point. -/
def Decimal.ofText? (text : Bytes) : Option Decimal :=
  let whole := text.takeWhile isDigit
  let rest := text.dropWhile isDigit
  if whole = [] then none
  else if rest.head? = some point then
    let fraction := rest.tail.takeWhile isDigit
    if fraction = [] then none
    else (exponent? (rest.tail.dropWhile isDigit)).map (ofDigits whole fraction)
  else (exponent? rest).map (ofDigits whole [])

/-- A decimal with a sign. The two zeros differ in it. -/
structure Numeral where
  negative : Bool
  magnitude : Decimal
  deriving DecidableEq

/-- The numeral that a text spells. -/
def Numeral.ofText? (text : Bytes) : Option Numeral :=
  if text.head? = some 0x2D then (Decimal.ofText? text.tail).map (Numeral.mk true)
  else (Decimal.ofText? text).map (Numeral.mk false)

example : Numeral.ofText? (Bytes.ofAscii "-1.50e-07") = some ⟨true, ⟨150, -9⟩⟩ := by decide

/-! ### Digits and what follows them -/

/-- One digit at least, and nothing else. -/
structure Digits (ds : Bytes) : Prop where
  ne_nil : ds ≠ []
  all : ∀ b ∈ ds, isDigit b = true

namespace Digits

theorem decimalNat (n : Nat) : Digits (Bytes.decimalNat n) where
  ne_nil := Bytes.decimalNat_ne_nil n
  all := Bytes.isDigit_decimalNat n

theorem isDigit_zeros (n : Nat) : ∀ b ∈ zeros n, isDigit b = true := by
  intro b hb
  rw [List.eq_of_mem_replicate hb]
  rfl

theorem zero : Digits (zeros 1) where
  ne_nil := by decide
  all := isDigit_zeros 1

variable {ds : Bytes} (h : Digits ds)

include h

theorem zeros_append (n : Nat) : Digits (zeros n ++ ds) where
  ne_nil := List.append_ne_nil_of_right_ne_nil _ h.ne_nil
  all b hb := (List.mem_append.mp hb).elim (isDigit_zeros n b) (h.all b)

theorem append_zeros (n : Nat) : Digits (ds ++ zeros n) where
  ne_nil := List.append_ne_nil_of_left_ne_nil h.ne_nil _
  all b hb := (List.mem_append.mp hb).elim (h.all b) (isDigit_zeros n b)

theorem take (n : Nat) : Digits (ds.take (n + 1)) where
  ne_nil := by
    rw [Ne, List.take_eq_nil_iff]
    exact not_or.mpr ⟨Nat.succ_ne_zero n, h.ne_nil⟩
  all b hb := h.all b (List.mem_of_mem_take hb)

theorem drop {n : Nat} (hn : n < ds.length) : Digits (ds.drop n) where
  ne_nil := by
    rw [Ne, List.drop_eq_nil_iff]
    exact Nat.not_le.mpr hn
  all b hb := h.all b (List.mem_of_mem_drop hb)

/-- Digits are read up to where they end. -/
theorem takeWhile {rest : Bytes} (hrest : ∀ b ∈ rest.head?, isDigit b = false) :
    (ds ++ rest).takeWhile isDigit = ds ∧ (ds ++ rest).dropWhile isDigit = rest := by
  rw [List.takeWhile_append_of_pos h.all, List.dropWhile_append_of_pos h.all]
  cases rest with
  | nil => exact ⟨List.append_nil ds, rfl⟩
  | cons b rest =>
    have hb : ¬ isDigit b = true := Bool.not_eq_true _ ▸ hrest b rfl
    rw [List.takeWhile_cons_of_neg hb, List.dropWhile_cons_of_neg hb]
    exact ⟨List.append_nil ds, rfl⟩

end Digits

theorem ofText?_whole {whole rest : Bytes} (hwhole : Digits whole)
    (hrest : ∀ b ∈ rest.head?, isDigit b = false) (hpoint : rest.head? ≠ some point) :
    Decimal.ofText? (whole ++ rest) = (exponent? rest).map (Decimal.ofDigits whole []) := by
  obtain ⟨htake, hdrop⟩ := hwhole.takeWhile hrest
  simp only [Decimal.ofText?, htake, hdrop, if_neg hwhole.ne_nil, if_neg hpoint]

theorem ofText?_point {whole fraction rest : Bytes} (hwhole : Digits whole)
    (hfraction : Digits fraction) (hrest : ∀ b ∈ rest.head?, isDigit b = false) :
    Decimal.ofText? (whole ++ point :: (fraction ++ rest)) =
      (exponent? rest).map (Decimal.ofDigits whole fraction) := by
  have hpoint : ∀ b ∈ (point :: (fraction ++ rest)).head?, isDigit b = false := by
    rintro _ ⟨⟩
    rfl
  obtain ⟨htake, hdrop⟩ := hwhole.takeWhile hpoint
  obtain ⟨htake', hdrop'⟩ := hfraction.takeWhile hrest
  simp only [Decimal.ofText?, htake, hdrop, List.head?_cons, List.tail_cons, htake', hdrop',
    if_neg hwhole.ne_nil, if_neg hfraction.ne_nil, if_true]

theorem digitsValue_zeros (n : Nat) : Bytes.digitsValue (zeros n) = 0 := by
  induction n with
  | zero => rfl
  | succ n ih =>
    rw [zeros, List.replicate_succ', Bytes.digitsValue_append, ← zeros, ih, Nat.zero_mul]
    rfl

theorem digitsValue_zeros_append (n : Nat) (ds : Bytes) :
    Bytes.digitsValue (zeros n ++ ds) = Bytes.digitsValue ds := by
  rw [Bytes.digitsValue_append, digitsValue_zeros, Nat.zero_mul, Nat.zero_add]

theorem digitsValue_append_zeros (ds : Bytes) (n : Nat) :
    Bytes.digitsValue (ds ++ zeros n) = Bytes.digitsValue ds * 10 ^ n := by
  rw [Bytes.digitsValue_append, digitsValue_zeros, Nat.add_zero, zeros, List.length_replicate]

theorem value_ofDigits (whole fraction : Bytes) (e : Int) :
    (Decimal.ofDigits whole fraction e).value =
      Bytes.digitsValue (whole ++ fraction) * 10 ^ (e - fraction.length) :=
  rfl

/-- The exponent of a text is read back. -/
theorem exponent?_text (e : Int) (n : Nat) :
    exponent? (0x65 :: (if e < 0 then 0x2D else 0x2B) ::
      (zeros n ++ Bytes.decimalNat e.natAbs)) = some e := by
  have hdigits := (Digits.decimalNat e.natAbs).zeros_append n
  have hvalue : Bytes.digitsValue (zeros n ++ Bytes.decimalNat e.natAbs) = e.natAbs := by
    rw [digitsValue_zeros_append, Bytes.digitsValue_decimalNat]
  rw [exponent?, if_pos ⟨rfl, hdigits.ne_nil, List.all_eq_true.mpr hdigits.all⟩, hvalue]
  by_cases hneg : e < 0
  · rw [if_pos hneg, if_neg (by decide), if_pos rfl]
    congr 1
    omega
  · rw [if_neg hneg, if_pos rfl]
    congr 1
    omega

/-! ### The two notations -/

section

variable {ds : Bytes} (h : Digits ds) (e : Int)

include h

/-- Digits in positional notation are read back. -/
theorem exists_ofText?_positional : ∃ d, Decimal.ofText? (positional ds e) = some d ∧
    d.value = Bytes.digitsValue ds * 10 ^ (e + 1 - ds.length) := by
  have hread {whole fraction : Bytes} (hwhole : Digits whole) (hfraction : Digits fraction) :
      Decimal.ofText? (whole ++ point :: fraction) = some (Decimal.ofDigits whole fraction 0) := by
    have hempty : ∀ b ∈ ([] : Bytes).head?, isDigit b = false := nofun
    have hpoint := ofText?_point hwhole hfraction hempty
    rwa [List.append_nil] at hpoint
  by_cases hneg : e < 0
  · have htext : positional ds e = zeros 1 ++ point :: (zeros (-e - 1).toNat ++ ds) := if_pos hneg
    refine ⟨_, htext ▸ hread Digits.zero (h.zeros_append _), ?_⟩
    rw [value_ofDigits, digitsValue_zeros_append, digitsValue_zeros_append, List.length_append,
      zeros, List.length_replicate]
    congr 2
    push_cast
    omega
  by_cases hlong : e.toNat + 1 < ds.length
  · have hdrop := h.drop hlong
    have hfit : e.toNat + 1 - ds.length = 0 := by omega
    have htext : positional ds e =
        ds.take (e.toNat + 1) ++ point :: ds.drop (e.toNat + 1) := by
      simp only [positional, if_neg hneg, hfit, zeros, List.replicate_zero, List.append_nil,
        List.isEmpty_iff, if_neg hdrop.ne_nil]
    refine ⟨_, htext ▸ hread (h.take _) hdrop, ?_⟩
    rw [value_ofDigits, List.take_append_drop, List.length_drop]
    congr 2
    omega
  · have hdrop : ds.drop (e.toNat + 1) = [] := List.drop_eq_nil_iff.mpr (by omega)
    have htake : ds.take (e.toNat + 1) = ds := List.take_of_length_le (by omega)
    have htext : positional ds e =
        ds ++ zeros (e.toNat + 1 - ds.length) ++ point :: zeros 1 := by
      simp only [positional, if_neg hneg, hdrop, htake, List.isEmpty_nil, if_true]
    refine ⟨_, htext ▸ hread (h.append_zeros _) Digits.zero, ?_⟩
    have hplaces : e + 1 - ds.length = ((e.toNat + 1 - ds.length : Nat) : Int) := by omega
    rw [value_ofDigits, digitsValue_append_zeros, digitsValue_append_zeros, hplaces, zpow_natCast]
    push_cast
    norm_num [zeros]
    ring

/-- Digits in scientific notation are read back. -/
theorem exists_ofText?_scientific : ∃ d, Decimal.ofText? (scientific ds e) = some d ∧
    d.value = Bytes.digitsValue ds * 10 ^ (e + 1 - ds.length) := by
  let exponent := 0x65 :: (if e < 0 then 0x2D else 0x2B) ::
    (zeros (2 - (Bytes.decimalNat e.natAbs).length) ++ Bytes.decimalNat e.natAbs)
  have hexponent : exponent? exponent = some e := exponent?_text e _
  have hletter : ∀ b ∈ exponent.head?, isDigit b = false := by
    rintro _ ⟨⟩
    rfl
  have hpoint : exponent.head? ≠ some point := fun h => absurd (Option.some.inj h) (by decide)
  obtain hone | hmore := Nat.eq_or_lt_of_le (List.length_pos_iff.mpr h.ne_nil)
  · have hdrop : ds.drop 1 = [] := List.drop_eq_nil_iff.mpr (by omega)
    have hall : ds.take 1 = ds := List.take_of_length_le (by omega)
    have htext : scientific ds e = ds ++ exponent := by
      simp only [scientific, hdrop, hall, List.isEmpty_nil, if_true, List.append_nil, exponent]
    have hread := ofText?_whole h hletter hpoint
    rw [hexponent, ← htext] at hread
    refine ⟨_, hread, ?_⟩
    rw [value_ofDigits, List.append_nil, ← hone]
    congr 2
    norm_num
  · have hdrop := h.drop hmore
    have htext : scientific ds e = ds.take 1 ++ point :: (ds.drop 1 ++ exponent) := by
      simp only [scientific, List.isEmpty_iff, if_neg hdrop.ne_nil, List.append_assoc,
        List.cons_append, exponent]
    have hread := ofText?_point (h.take 0) hdrop hletter
    rw [hexponent, ← htext] at hread
    refine ⟨_, hread, ?_⟩
    rw [value_ofDigits, List.take_append_drop, List.length_drop]
    congr 2
    omega

end

/-- **The text of a decimal is read as the number it denotes.** -/
theorem Decimal.exists_ofText?_text (d : Decimal) :
    ∃ d', Decimal.ofText? d.text = some d' ∧ d'.value = d.value := by
  have h := Digits.decimalNat d.digits
  have hvalue : (d.digits : ℚ) * 10 ^ d.exponent = Bytes.digitsValue (Bytes.decimalNat d.digits) *
      10 ^ (d.exponent + (Bytes.decimalNat d.digits).length - 1 + 1 -
        (Bytes.decimalNat d.digits).length) := by
    rw [Bytes.digitsValue_decimalNat]
    congr 2
    omega
  rw [Decimal.text, Decimal.value, hvalue]
  split
  · exact exists_ofText?_positional h _
  · exact exists_ofText?_scientific h _

/-- The text of a double, its sign apart, is read as the number its decimal denotes. -/
theorem exists_ofText?_magnitudeText (m : Nat) (q : Int) :
    ∃ d, Decimal.ofText? (magnitudeText m q) = some d ∧
      d.value = if m = 0 then 0 else (shortest m q).value := by
  rw [magnitudeText]
  split
  · obtain ⟨d, hd, hvalue⟩ := exists_ofText?_positional Digits.zero 0
    refine ⟨d, hd, ?_⟩
    rw [hvalue, digitsValue_zeros, Nat.cast_zero, zero_mul]
  · exact (shortest m q).exists_ofText?_text

/-! ### Signs -/

/-- A text that starts with a minus sign spells no numeral without a sign. -/
theorem ofText?_minus (text : Bytes) : Decimal.ofText? (0x2D :: text) = none :=
  rfl

theorem Numeral.ofText?_signed {text : Bytes} {d : Decimal} (h : Decimal.ofText? text = some d)
    (negative : Bool) : Numeral.ofText? (signed negative text) = some ⟨negative, d⟩ := by
  cases negative with
  | true =>
    rw [signed, if_pos rfl, Numeral.ofText?, List.head?_cons, if_pos rfl, List.tail_cons, h,
      Option.map_some]
  | false =>
    have hsign : text.head? ≠ some 0x2D := by
      intro hhead
      obtain ⟨rest, rfl⟩ := List.head?_eq_some_iff.mp hhead
      rw [ofText?_minus] at h
      cases h
    rw [signed, if_neg Bool.false_ne_true, Numeral.ofText?, if_neg hsign, h, Option.map_some]

/-! ### Significant digits -/

/-- The number of digits of a number, without the zeros at its end. -/
def significantDigits (n : Nat) : Nat :=
  ((Bytes.decimalNat n).reverse.dropWhile (· == 0x30)).length

/-- The number of significant digits of a decimal: zeros in front and at the end do not count. -/
def Decimal.significant (d : Decimal) : Nat :=
  significantDigits d.digits

theorem significantDigits_mul_ten {n : Nat} (h : 0 < n) :
    significantDigits (n * 10) = significantDigits n := by
  have hdiv : n * 10 / 10 = n := by omega
  have hmod : n * 10 % 10 = 0 := by omega
  rw [significantDigits, Bytes.decimalNat_of_ge (by omega), hdiv, hmod, List.reverse_append]
  rfl

theorem significantDigits_of_mod {n : Nat} (h : n % 10 ≠ 0) :
    significantDigits n = (Bytes.decimalNat n).length := by
  obtain ⟨front, hfront⟩ : ∃ front,
      Bytes.decimalNat n = front ++ [UInt8.ofNat (0x30 + n % 10)] := by
    by_cases hlt : n < 10
    · exact ⟨[], by rw [Bytes.decimalNat_of_lt hlt, Nat.mod_eq_of_lt hlt, List.nil_append]⟩
    · exact ⟨_, Bytes.decimalNat_of_ge (Nat.not_lt.mp hlt)⟩
  have hdigit : ¬ (UInt8.ofNat (0x30 + n % 10) == 0x30) = true := by
    rw [beq_iff_eq, ← UInt8.toNat_inj, Bytes.toNat_ofNat_digit (Nat.mod_lt n (by decide))]
    exact fun heq => h (Nat.add_left_cancel (heq.trans (Nat.add_zero 0x30).symm))
  have hkeep : (UInt8.ofNat (0x30 + n % 10) :: front.reverse).dropWhile (· == 0x30) =
      UInt8.ofNat (0x30 + n % 10) :: front.reverse := List.dropWhile_cons_of_neg hdigit
  rw [significantDigits, hfront, List.reverse_append, List.reverse_singleton,
    List.singleton_append, hkeep, List.length_cons, List.length_reverse, List.length_append,
    List.length_singleton]

/-- A number is one that does not end in a zero, with zeros behind it. -/
theorem exists_trimmed {n : Nat} (h : 0 < n) : ∃ trimmed zeros, n = trimmed * 10 ^ zeros ∧
    trimmed % 10 ≠ 0 ∧ significantDigits n = (Bytes.decimalNat trimmed).length := by
  induction n using Nat.strongRecOn with
  | ind n ih =>
    by_cases hmod : n % 10 = 0
    · have hn : n = n / 10 * 10 := by omega
      obtain ⟨trimmed, zeros, heq, hne, hlength⟩ := ih (n / 10) (by omega) (by omega)
      refine ⟨trimmed, zeros + 1, ?_, hne, ?_⟩
      · rw [Nat.pow_succ, ← Nat.mul_assoc, ← heq, ← hn]
      · rw [hn, significantDigits_mul_ten (by omega), hlength]
    · exact ⟨n, 0, (Nat.mul_one n).symm, hmod, significantDigits_of_mod hmod⟩

/-- The number that a decimal denotes can be written with its significant digits alone. -/
theorem Decimal.exists_significant (d : Decimal) :
    ∃ (n : Nat) (e : Int), n < 10 ^ d.significant ∧ (n : ℚ) * 10 ^ e = d.value := by
  obtain hzero | hpos := Nat.eq_zero_or_pos d.digits
  · refine ⟨0, d.exponent, Nat.pow_pos (by decide), ?_⟩
    rw [Decimal.value, hzero]
  · obtain ⟨trimmed, zeros, heq, -, hlength⟩ := exists_trimmed hpos
    have hlen : 0 < (Bytes.decimalNat trimmed).length :=
      List.length_pos_iff.mpr (Bytes.decimalNat_ne_nil trimmed)
    refine ⟨trimmed, d.exponent + zeros, ?_, ?_⟩
    · rw [significant, hlength]
      exact (Bytes.length_decimalNat_le_iff hlen).mp (Nat.le_refl _)
    · rw [Decimal.value, heq, zpow_add₀ (by norm_num), zpow_natCast]
      push_cast
      ring

/-- The number that a decimal denotes cannot be written with fewer digits than its significant
ones. -/
theorem Decimal.significant_le {d : Decimal} {n k : Nat} {e : Int} (hn : n < 10 ^ k)
    (h : (n : ℚ) * 10 ^ e = d.value) : d.significant ≤ k := by
  obtain hzero | hpos := Nat.eq_zero_or_pos d.digits
  · rw [significant, hzero]
    exact Nat.zero_le k
  obtain ⟨trimmed, zeros, heq, hne, hlength⟩ := exists_trimmed hpos
  have hten (a : Int) : (10 : ℚ) ^ a ≠ 0 := by positivity
  have hvalue : (n : ℚ) * 10 ^ e = trimmed * 10 ^ (d.exponent + zeros) := by
    rw [h, Decimal.value, heq, zpow_add₀ (by norm_num), zpow_natCast]
    push_cast
    ring
  have hle : trimmed ≤ n := by
    obtain hexp | hexp := le_or_gt e (d.exponent + zeros)
    · rw [← shifted_value trimmed hexp, mul_left_inj' (hten e), Nat.cast_inj] at hvalue
      rw [hvalue]
      exact Nat.le_mul_of_pos_right _ (Nat.pow_pos (by decide))
    · -- then the digits that do not end in a zero would be a multiple of ten
      rw [← shifted_value n hexp.le, mul_left_inj' (hten _), Nat.cast_inj] at hvalue
      obtain ⟨z, hz⟩ := Nat.exists_eq_succ_of_ne_zero (show (e - (d.exponent + zeros)).toNat ≠ 0 by omega)
      rw [← hvalue, hz, Nat.pow_succ, ← Nat.mul_assoc, Nat.mul_mod_left] at hne
      exact absurd rfl hne
  have hk : 0 < k := by
    rw [Nat.pos_iff_ne_zero]
    rintro rfl
    rw [pow_zero] at hn
    omega
  rw [significant, hlength]
  exact (Bytes.length_decimalNat_le_iff hk).mpr (Nat.lt_of_le_of_lt hle hn)

end Binary64

end RedisDump
