import RedisDump.Bytes

/-!
# Decimal texts

The decimal text of a number from ten on is that of its tenth part and one digit more
(`Bytes.decimalNat_of_ge`). Its bytes are digits, it is as long as the number needs
(`Bytes.length_decimalNat_le_iff`), and the number is read back from it
(`Bytes.digitsValue_decimalNat`). So different integers have different texts (`Bytes.decimal_inj`).
-/

namespace RedisDump.Bytes

/-! ### Digits -/

theorem toNat_ofNat_digit {d : Nat} (h : d < 10) : (UInt8.ofNat (0x30 + d)).toNat = 0x30 + d :=
  UInt8.toNat_ofNat_of_lt (show _ < 256 by omega)

theorem isDigit_ofNat {d : Nat} (h : d < 10) : isDigit (UInt8.ofNat (0x30 + d)) = true := by
  simp only [isDigit, Bool.and_eq_true, decide_eq_true_eq, UInt8.le_iff_toNat_le,
    toNat_ofNat_digit h]
  exact ⟨Nat.le_add_right _ _, show _ ≤ 57 by omega⟩

theorem digitChar_toUInt8 {d : Nat} (h : d < 10) :
    (Nat.digitChar d).toUInt8 = UInt8.ofNat (0x30 + d) := by
  have hd : (Nat.digitChar d).val.toNat = 0x30 + d := Nat.toNat_digitChar_of_lt_ten h
  rw [← UInt8.toNat_inj, toNat_ofNat_digit h, Char.toUInt8, UInt32.toNat_toUInt8, hd]
  exact Nat.mod_eq_of_lt (by omega)

theorem decimalNat_of_lt {n : Nat} (h : n < 10) : decimalNat n = [UInt8.ofNat (0x30 + n)] := by
  rw [decimalNat, Nat.toDigits_of_lt_base h, List.map_singleton, digitChar_toUInt8 h]

theorem decimalNat_of_ge {n : Nat} (h : 10 ≤ n) :
    decimalNat n = decimalNat (n / 10) ++ [UInt8.ofNat (0x30 + n % 10)] := by
  rw [decimalNat, Nat.toDigits_eq_if (by decide), if_neg (Nat.not_lt.mpr h), List.map_append,
    List.map_singleton, digitChar_toUInt8 (Nat.mod_lt n (by decide)), decimalNat]

theorem decimalNat_ne_nil (n : Nat) : decimalNat n ≠ [] := by
  rw [decimalNat, Ne, List.map_eq_nil_iff]
  exact Nat.toDigits_ne_nil

theorem isDigit_decimalNat (n : Nat) : ∀ b ∈ decimalNat n, isDigit b = true := by
  induction n using Nat.strongRecOn with
  | ind n ih =>
    intro b hb
    by_cases h : n < 10
    · rw [decimalNat_of_lt h, List.mem_singleton] at hb
      exact hb ▸ isDigit_ofNat h
    · rw [decimalNat_of_ge (Nat.not_lt.mp h), List.mem_append, List.mem_singleton] at hb
      obtain hb | rfl := hb
      · exact ih (n / 10) (by omega) b hb
      · exact isDigit_ofNat (Nat.mod_lt n (by decide))

theorem length_decimalNat_le_iff {n k : Nat} (hk : 0 < k) :
    (decimalNat n).length ≤ k ↔ n < 10 ^ k := by
  rw [decimalNat, List.length_map]
  exact Nat.length_toDigits_le_iff (by decide) hk

/-! ### The number that digits denote -/

theorem foldl_digits (bs : Bytes) (n : Nat) :
    bs.foldl (fun n b => 10 * n + (b.toNat - 0x30)) n = n * 10 ^ bs.length + bs.digitsValue := by
  induction bs generalizing n with
  | nil => simp [digitsValue]
  | cons b bs ih =>
    rw [digitsValue, List.foldl_cons, List.foldl_cons, ih, ih (10 * 0 + _), List.length_cons,
      Nat.pow_succ, Nat.add_mul, ← Nat.add_assoc, Nat.mul_zero, Nat.zero_add,
      Nat.mul_comm 10 n, Nat.mul_assoc, Nat.mul_comm 10]

theorem digitsValue_append (bs cs : Bytes) :
    (bs ++ cs).digitsValue = bs.digitsValue * 10 ^ cs.length + cs.digitsValue := by
  rw [digitsValue, List.foldl_append, foldl_digits cs]
  rfl

theorem digitsValue_decimalNat (n : Nat) : (decimalNat n).digitsValue = n := by
  induction n using Nat.strongRecOn with
  | ind n ih =>
    by_cases h : n < 10
    · rw [decimalNat_of_lt h, digitsValue, List.foldl_cons, List.foldl_nil, toNat_ofNat_digit h]
      omega
    · rw [decimalNat_of_ge (Nat.not_lt.mp h), digitsValue_append, ih (n / 10) (by omega),
        List.length_singleton, digitsValue, List.foldl_cons, List.foldl_nil,
        toNat_ofNat_digit (Nat.mod_lt n (by decide))]
      omega

/-! ### Different numbers -/

theorem decimalNat_inj {m n : Nat} (h : decimalNat m = decimalNat n) : m = n := by
  rw [← digitsValue_decimalNat m, h, digitsValue_decimalNat]

/-- The text of a number does not start with a minus sign. -/
theorem minus_cons_ne_decimalNat (bs : Bytes) (n : Nat) : 0x2D :: bs ≠ decimalNat n := by
  intro h
  have hminus : isDigit 0x2D = true := isDigit_decimalNat n _ (h ▸ List.mem_cons_self)
  exact absurd hminus (by decide)

/-- **Different integers have different decimal texts.** -/
theorem decimal_inj {y z : Int} (h : decimal y = decimal z) : y = z := by
  cases y with
  | ofNat m =>
    cases z with
    | ofNat n => rw [decimalNat_inj h]
    | negSucc n => exact absurd h.symm (minus_cons_ne_decimalNat _ m)
  | negSucc m =>
    cases z with
    | ofNat n => exact absurd h (minus_cons_ne_decimalNat _ n)
    | negSucc n => rw [Nat.succ.inj (decimalNat_inj (List.cons.inj h).2)]

end RedisDump.Bytes
