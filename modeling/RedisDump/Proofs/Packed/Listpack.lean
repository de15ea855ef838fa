import RedisDump.Packed.Listpack
import RedisDump.Proofs.Packed.Scanning

/-!
# Listpacks by their form

The forms in which the elements of a listpack may stand, and the listpacks that are decoded: just
those with four bytes in front, a count and so many elements, or the count `0xFFFF` and elements,
and in either case the end mark behind them (`Listpack.decode_eq_ok_iff`).
-/

namespace RedisDump.Listpack

open Scan

/-! ### Forms -/

/-- The first bytes of the integers that stand in bytes of their own, with their numbers of
bytes. -/
def integerWidths : List (UInt8 × Nat) :=
  [(0xF1, 2), (0xF2, 3), (0xF3, 4), (0xF4, 8)]

/-- The forms of an integer: in the low seven bits of a byte, as a pattern of thirteen bits of two,
or in as many bytes as the first one says. -/
inductive IntegerForm : Int → Bytes → Prop where
  | seven {n : Nat} : n < 2 ^ 7 → IntegerForm n [UInt8.ofNat n]
  | thirteen {raw : Nat} : raw < 2 ^ 13 → IntegerForm (Bytes.twosComplement 13 raw)
    [UInt8.ofNat (0xC0 + raw / 256), UInt8.ofNat (raw % 256)]
  | wide {b : UInt8} {width : Nat} {z : Int} : (b, width) ∈ integerWidths →
    Bytes.FitsSigned width z → IntegerForm z (b :: Bytes.signedBytes width z)

/-- The forms of an element without its size: a string whose length stands in the low six bits of
the first byte, in the low twelve bits of two, or in four bytes after the first, or an integer for
its decimal text. -/
inductive BodyForm : Bytes → Bytes → Prop where
  | six {s : Bytes} : s.length < 2 ^ 6 → BodyForm s (UInt8.ofNat (0x80 + s.length) :: s)
  | twelve {s : Bytes} : s.length < 2 ^ 12 → BodyForm s
    (UInt8.ofNat (0xE0 + s.length / 256) :: UInt8.ofNat (s.length % 256) :: s)
  | thirtyTwo {s : Bytes} : s.length < 2 ^ 32 →
    BodyForm s (0xF0 :: (Bytes.leBytes 4 s.length ++ s))
  | integer {z : Int} {bs : Bytes} : IntegerForm z bs → BodyForm (Bytes.decimal z) bs

/-- The forms of an element, with its size behind it. -/
inductive ElementForm (s : Bytes) : Bytes → Prop where
  | intro {body size : Bytes} : BodyForm s body → size.length = backlenWidth body.length →
    ElementForm s (body ++ size)

/-- The listpacks with the elements `xs`. Behind the end mark anything may follow. -/
inductive Form (xs : List Bytes) : Bytes → Prop where
  | intro {known : Bool} {bs : Bytes} (rest : Bytes) :
    ElementsForm leadingBytes uncounted ElementForm xs known bs → Form xs (bs ++ endMark :: rest)

/-! ### Elements -/

theorem integerWidth?_eq_some_iff {b : UInt8} {width : Nat} :
    integerWidth? b = some width ↔ (b, width) ∈ integerWidths := by
  constructor
  · intro h
    have hb : b = UInt8.ofNat b.toNat := UInt8.ofNat_toNat.symm
    unfold integerWidth? at h
    split at h <;> cases h
    all_goals
      rename_i hn
      rw [hb, hn]
      decide
  · intro h
    simp only [integerWidths, List.mem_cons, List.not_mem_nil, or_false, Prod.mk.injEq] at h
    obtain ⟨rfl, rfl⟩ | ⟨rfl, rfl⟩ | ⟨rfl, rfl⟩ | ⟨rfl, rfl⟩ := h <;> rfl

theorem BodyForm.exists_cons {s bs : Bytes} (h : BodyForm s bs) : ∃ b cs, bs = b :: cs := by
  cases h with
  | integer h => cases h <;> exact ⟨_, _, rfl⟩
  | _ => exact ⟨_, _, rfl⟩

/-- The first byte tells the form of an element. -/
theorem bodyForm_cons_iff {b : UInt8} {s bs : Bytes} :
    BodyForm s (b :: bs) ↔
      (b.toNat < 0x80 ∧ s = Bytes.decimalNat b.toNat ∧ bs = []) ∨
      (b.toNat / 64 = 2 ∧ s.length = b.toNat % 64 ∧ bs = s) ∨
      (b.toNat / 32 = 6 ∧ ∃ c : UInt8, bs = [c] ∧
        s = Bytes.decimal (Bytes.twosComplement 13 (b.toNat % 32 * 256 + c.toNat))) ∨
      (b.toNat / 16 = 14 ∧ ∃ c cs, bs = c :: cs ∧ s.length = b.toNat % 16 * 256 + c.toNat ∧
        cs = s) ∨
      (b.toNat = 0xF0 ∧ s.length < 2 ^ 32 ∧ bs = Bytes.leBytes 4 s.length ++ s) ∨
      0xF0 < b.toNat ∧ ∃ width z, integerWidth? b = some width ∧ Bytes.FitsSigned width z ∧
        bs = Bytes.signedBytes width z ∧ s = Bytes.decimal z := by
  simp only [integerWidth?_eq_some_iff]
  constructor
  · intro h
    cases h with
    | six h =>
      have hb : (UInt8.ofNat (0x80 + s.length)).toNat = 0x80 + s.length :=
        UInt8.toNat_ofNat_of_lt (show _ < 256 by omega)
      exact .inr (.inl ⟨by omega, by omega, rfl⟩)
    | twelve h =>
      have hb : (UInt8.ofNat (0xE0 + s.length / 256)).toNat = 0xE0 + s.length / 256 :=
        UInt8.toNat_ofNat_of_lt (show _ < 256 by omega)
      have hc : (UInt8.ofNat (s.length % 256)).toNat = s.length % 256 :=
        UInt8.toNat_ofNat_of_lt (Nat.mod_lt _ (by decide))
      exact .inr (.inr (.inr (.inl ⟨by omega, _, _, rfl, by omega, rfl⟩)))
    | thirtyTwo h => exact .inr (.inr (.inr (.inr (.inl ⟨rfl, h, rfl⟩))))
    | integer h =>
      cases h with
      | @seven n hn =>
        have hb : (UInt8.ofNat n).toNat = n := UInt8.toNat_ofNat_of_lt (show _ < 256 by omega)
        rw [hb]
        exact .inl ⟨hn, rfl, rfl⟩
      | @thirteen raw hraw =>
        have hb : (UInt8.ofNat (0xC0 + raw / 256)).toNat = 0xC0 + raw / 256 :=
          UInt8.toNat_ofNat_of_lt (show _ < 256 by omega)
        have hc : (UInt8.ofNat (raw % 256)).toNat = raw % 256 :=
          UInt8.toNat_ofNat_of_lt (Nat.mod_lt _ (by decide))
        refine .inr (.inr (.inl ⟨by omega, _, rfl, ?_⟩))
        rw [hb, hc]
        congr 2
        omega
      | wide hmem hz =>
        refine .inr (.inr (.inr (.inr (.inr ⟨?_, _, _, hmem, hz, rfl, rfl⟩))))
        simp only [integerWidths, List.mem_cons, List.not_mem_nil, or_false, Prod.mk.injEq] at hmem
        obtain ⟨rfl, -⟩ | ⟨rfl, -⟩ | ⟨rfl, -⟩ | ⟨rfl, -⟩ := hmem <;> decide
  · rintro (⟨hb, rfl, rfl⟩ | ⟨hb, hs, rfl⟩ | ⟨hb, c, rfl, rfl⟩ | ⟨hb, c, cs, rfl, hs, rfl⟩ |
      ⟨hb, hs, rfl⟩ | ⟨-, width, z, hmem, hz, rfl, rfl⟩)
    · have h : IntegerForm b.toNat [UInt8.ofNat b.toNat] := .seven hb
      rw [UInt8.ofNat_toNat] at h
      exact .integer h
    · have h : BodyForm bs (UInt8.ofNat (0x80 + bs.length) :: bs) := .six (by omega)
      rwa [show 0x80 + bs.length = b.toNat by omega, UInt8.ofNat_toNat] at h
    · have hc : c.toNat < 256 := c.toNat_lt
      have h : IntegerForm _ _ :=
        .thirteen (show b.toNat % 32 * 256 + c.toNat < 2 ^ 13 by omega)
      rw [show 0xC0 + (b.toNat % 32 * 256 + c.toNat) / 256 = b.toNat by omega,
        show (b.toNat % 32 * 256 + c.toNat) % 256 = c.toNat by omega, UInt8.ofNat_toNat,
        UInt8.ofNat_toNat] at h
      exact .integer h
    · have hc : c.toNat < 256 := c.toNat_lt
      have h : BodyForm cs _ := .twelve (by omega)
      rwa [show 0xE0 + cs.length / 256 = b.toNat by omega,
        show cs.length % 256 = c.toNat by omega, UInt8.ofNat_toNat, UInt8.ofNat_toNat] at h
    · have h : BodyForm s (UInt8.ofNat 0xF0 :: (Bytes.leBytes 4 s.length ++ s)) := .thirtyTwo hs
      rwa [← hb, UInt8.ofNat_toNat] at h
    · exact .integer (.wide hmem hz)

/-! The first byte says which of the forms it is, so that the others are ruled out once for each
range of first bytes. -/

section FirstByte

variable {b : UInt8} {s bs : Bytes}

theorem bodyForm_seven_iff (hb : b.toNat < 0x80) :
    BodyForm s (b :: bs) ↔ s = Bytes.decimalNat b.toNat ∧ bs = [] := by
  simp only [bodyForm_cons_iff, hb, show b.toNat / 64 ≠ 2 by omega,
    show b.toNat / 32 ≠ 6 by omega, show b.toNat / 16 ≠ 14 by omega,
    show b.toNat ≠ 0xF0 by omega, show ¬ 0xF0 < b.toNat by omega, false_and, or_false, true_and]

theorem bodyForm_six_iff (hb : b.toNat / 64 = 2) :
    BodyForm s (b :: bs) ↔ s.length = b.toNat % 64 ∧ bs = s := by
  simp only [bodyForm_cons_iff, hb, show ¬ b.toNat < 0x80 by omega,
    show b.toNat / 32 ≠ 6 by omega, show b.toNat / 16 ≠ 14 by omega,
    show b.toNat ≠ 0xF0 by omega, show ¬ 0xF0 < b.toNat by omega, false_and, or_false,
    false_or, true_and]

theorem bodyForm_thirteen_iff (hb : b.toNat / 32 = 6) :
    BodyForm s (b :: bs) ↔ ∃ c : UInt8, bs = [c] ∧
      s = Bytes.decimal (Bytes.twosComplement 13 (b.toNat % 32 * 256 + c.toNat)) := by
  simp only [bodyForm_cons_iff, hb, show ¬ b.toNat < 0x80 by omega,
    show b.toNat / 64 ≠ 2 by omega, show b.toNat / 16 ≠ 14 by omega,
    show b.toNat ≠ 0xF0 by omega, show ¬ 0xF0 < b.toNat by omega, false_and, or_false,
    false_or, true_and]

theorem bodyForm_twelve_iff (hb : b.toNat / 16 = 14) :
    BodyForm s (b :: bs) ↔
      ∃ c, bs = c :: s ∧ s.length = b.toNat % 16 * 256 + c.toNat := by
  simp only [bodyForm_cons_iff, hb, show ¬ b.toNat < 0x80 by omega,
    show b.toNat / 64 ≠ 2 by omega, show b.toNat / 32 ≠ 6 by omega,
    show b.toNat ≠ 0xF0 by omega, show ¬ 0xF0 < b.toNat by omega, false_and, or_false,
    false_or, true_and]
  constructor
  · rintro ⟨c, _, rfl, hs, rfl⟩
    exact ⟨c, rfl, hs⟩
  · rintro ⟨c, rfl, hs⟩
    exact ⟨c, s, rfl, hs, rfl⟩

theorem bodyForm_thirtyTwo_iff (hb : b.toNat = 0xF0) :
    BodyForm s (b :: bs) ↔ s.length < 2 ^ 32 ∧ bs = Bytes.leBytes 4 s.length ++ s := by
  simp only [bodyForm_cons_iff, hb, Nat.reduceLT, Nat.reduceDiv, Nat.reduceEqDiff, false_and,
    or_false, false_or, true_and, Nat.lt_irrefl]

theorem bodyForm_wide_iff (hb : 0xF0 < b.toNat) :
    BodyForm s (b :: bs) ↔ ∃ width z, integerWidth? b = some width ∧ Bytes.FitsSigned width z ∧
      bs = Bytes.signedBytes width z ∧ s = Bytes.decimal z := by
  simp only [bodyForm_cons_iff, hb, show ¬ b.toNat < 0x80 by omega,
    show b.toNat / 64 ≠ 2 by omega, show b.toNat / 32 ≠ 6 by omega,
    show b.toNat / 16 ≠ 14 by omega, show b.toNat ≠ 0xF0 by omega, false_and, false_or,
    true_and]

end FirstByte

theorem elementForm_cons_iff {b : UInt8} {s bs : Bytes} :
    ElementForm s (b :: bs) ↔ ∃ body size, BodyForm s (b :: body) ∧
      size.length = backlenWidth (body.length + 1 : Nat) ∧ bs = body ++ size := by
  constructor
  · intro h
    generalize hcs : b :: bs = cs at h
    obtain @⟨body, size, hbody, hsize⟩ := h
    obtain ⟨c, ds, rfl⟩ := hbody.exists_cons
    cases hcs
    exact ⟨ds, size, hbody, hsize, rfl⟩
  · rintro ⟨body, size, hbody, hsize, rfl⟩
    exact @ElementForm.intro s (b :: body) size hbody hsize

theorem stringBody_recognises (header length : Nat) :
    Recognises (stringBody header length) fun s bs => s.length = length ∧ ∃ size : Bytes,
      size.length = backlenWidth (header + length : Nat) ∧ bs = s ++ size := by
  refine ((Recognises.take length).bind fun s => (Recognises.skip _).map fun _ => s).congr
    fun s bs => ?_
  constructor
  · rintro ⟨_, _, size, ⟨rfl, hs⟩, ⟨-, hsize, rfl⟩, rfl⟩
    exact ⟨hs, size, hsize, rfl⟩
  · rintro ⟨hs, size, hsize, rfl⟩
    exact ⟨s, s, size, ⟨rfl, hs⟩, ⟨(), hsize, rfl⟩, rfl⟩

theorem integerBody_recognises (bits raw : Nat) :
    Recognises (integerBody bits raw) fun s bs =>
      s = Bytes.decimal (Bytes.twosComplement bits raw) ∧ bs.length = 1 := by
  refine ((Recognises.skip 1).map fun _ =>
    Bytes.decimal (Bytes.twosComplement bits raw)).congr fun s bs => ?_
  constructor
  · rintro ⟨-, h, rfl⟩
    exact ⟨rfl, h⟩
  · rintro ⟨rfl, h⟩
    exact ⟨(), h, rfl⟩

/-- The size of a short element takes one byte. -/
theorem backlenWidth_of_le {n : Nat} (h : n ≤ 127) : backlenWidth n = 1 :=
  if_pos (by omega)

/-- An integer of whole bytes. -/
theorem wideInteger_recognises {width : Nat} (hw : 0 < width) :
    Recognises (do integerBody (8 * width) (← littleEndian width)) fun s bs =>
      ∃ z size, Bytes.FitsSigned width z ∧ s = Bytes.decimal z ∧ size.length = 1 ∧
        bs = Bytes.signedBytes width z ++ size := by
  refine ((Recognises.littleEndian width).bind fun raw =>
    integerBody_recognises (8 * width) raw).congr fun s bs => ?_
  constructor
  · rintro ⟨raw, _, size, ⟨hraw, rfl⟩, ⟨rfl, hsize⟩, rfl⟩
    have hlen := Bytes.length_leBytes width raw
    have hne : Bytes.leBytes width raw ≠ [] := List.length_pos_iff.mp (by omega)
    have hz := Bytes.fitsSigned_leInt hne
    have hb := Bytes.signedBytes_leInt hne
    have ht := Bytes.twosComplement_leNat hne
    rw [hlen] at hz hb ht
    rw [Bytes.leNat_leBytes hraw] at ht
    exact ⟨_, size, hz, by rw [ht], hsize, by rw [hb]⟩
  · rintro ⟨z, size, hz, rfl, hsize, rfl⟩
    have hlen := Bytes.length_signedBytes width z
    have hne : Bytes.signedBytes width z ≠ [] := List.length_pos_iff.mp (by omega)
    have hlt := Bytes.leNat_lt (Bytes.signedBytes width z)
    have hb := Bytes.leBytes_leNat (Bytes.signedBytes width z)
    have ht := Bytes.twosComplement_leNat hne
    rw [hlen] at hlt hb ht
    rw [Bytes.leInt_signedBytes hw hz] at ht
    exact ⟨_, _, size, ⟨hlt, hb.symm⟩, ⟨by rw [ht], hsize⟩, rfl⟩

/-- A length in four bytes, and the string and its size behind it. -/
theorem longString_recognises {b : UInt8} (hb : b.toNat = 0xF0) :
    Recognises (do stringBody 5 (← littleEndian 4)) fun s bs => ElementForm s (b :: bs) := by
  simp only [elementForm_cons_iff, bodyForm_thirtyTwo_iff hb]
  have hwidth (s : Bytes) : backlenWidth ((Bytes.leBytes 4 s.length ++ s).length + 1 : Nat) =
      backlenWidth (5 + s.length : Nat) := by
    rw [List.length_append, Bytes.length_leBytes]
    congr 2
    omega
  refine ((Recognises.littleEndian 4).bind fun n => stringBody_recognises 5 n).congr
    fun s bs => ?_
  constructor
  · rintro ⟨n, _, _, ⟨hn, rfl⟩, ⟨rfl, size, hsize, rfl⟩, rfl⟩
    exact ⟨_, size, ⟨hn, rfl⟩, hsize.trans (hwidth s).symm, (List.append_assoc ..).symm⟩
  · rintro ⟨_, size, ⟨hs, rfl⟩, hsize, rfl⟩
    exact ⟨_, _, s ++ size, ⟨hs, rfl⟩, ⟨rfl, size, hsize.trans (hwidth s), rfl⟩,
      List.append_assoc ..⟩

theorem wideElement_recognises {b : UInt8} (hb : 0xF0 ≤ b.toNat) :
    Recognises (wideElement b) fun s bs => ElementForm s (b :: bs) := by
  unfold wideElement
  split
  · rename_i h
    exact longString_recognises (congrArg UInt8.toNat h)
  · rename_i hne
    have hgt : 0xF0 < b.toNat := by
      have hneq : b.toNat ≠ (0xF0 : UInt8).toNat := fun h => hne (UInt8.toNat_inj.mp h)
      have hnum : (0xF0 : UInt8).toNat = 0xF0 := rfl
      omega
    simp only [elementForm_cons_iff, bodyForm_wide_iff hgt]
    split
    · rename_i width hw
      have hpos : 0 < width ∧ width ≤ 8 := by
        have hmem := integerWidth?_eq_some_iff.mp hw
        simp only [integerWidths, List.mem_cons, List.not_mem_nil, or_false, Prod.mk.injEq] at hmem
        omega
      have hone (z : Int) :
          backlenWidth ((Bytes.signedBytes width z).length + 1 : Nat) = 1 := by
        rw [Bytes.length_signedBytes, backlenWidth_of_le (by omega)]
      refine (wideInteger_recognises hpos.1).congr fun s bs => ?_
      constructor
      · rintro ⟨z, size, hz, rfl, hsize, rfl⟩
        exact ⟨_, size, ⟨width, z, hw, hz, rfl, rfl⟩, hsize.trans (hone z).symm, rfl⟩
      · rintro ⟨_, size, ⟨_, z, h, hz, rfl, rfl⟩, hsize, rfl⟩
        cases hw.symm.trans h
        exact ⟨z, size, hz, rfl, hsize.trans (hone z), rfl⟩
    · rename_i hw
      refine (Recognises.fail _).congr fun s bs => ?_
      simp [hw]

/-- The first byte is the whole number. -/
theorem smallInteger_recognises {b : UInt8} (hb : b.toNat < 0x80) :
    Recognises (do skip 1; return Bytes.decimalNat b.toNat)
      fun s bs => ElementForm s (b :: bs) := by
  simp only [elementForm_cons_iff, bodyForm_seven_iff hb]
  refine ((Recognises.skip 1).map fun _ => Bytes.decimalNat b.toNat).congr fun s bs => ?_
  constructor
  · rintro ⟨-, h, rfl⟩
    exact ⟨[], bs, ⟨rfl, rfl⟩, h, rfl⟩
  · rintro ⟨_, size, ⟨rfl, rfl⟩, hsize, rfl⟩
    exact ⟨(), hsize, rfl⟩

/-- The first byte holds the length. -/
theorem shortString_recognises {b : UInt8} (hb : b.toNat / 64 = 2) :
    Recognises (stringBody 1 (b.toNat % 64)) fun s bs => ElementForm s (b :: bs) := by
  simp only [elementForm_cons_iff, bodyForm_six_iff hb]
  refine (stringBody_recognises 1 (b.toNat % 64)).congr fun s bs => ?_
  constructor
  · rintro ⟨hs, size, hsize, rfl⟩
    exact ⟨s, size, ⟨hs, rfl⟩, by rw [hsize, hs, Nat.add_comm], rfl⟩
  · rintro ⟨_, size, ⟨hs, rfl⟩, hsize, rfl⟩
    exact ⟨hs, size, by rw [hsize, hs, Nat.add_comm], rfl⟩

/-- The number goes over into a second byte. -/
theorem mediumInteger_recognises {b : UInt8} (hb : b.toNat / 32 = 6) :
    Recognises (do integerBody 13 (b.toNat % 32 * 256 + (← byte).toNat))
      fun s bs => ElementForm s (b :: bs) := by
  simp only [elementForm_cons_iff, bodyForm_thirteen_iff hb]
  refine (Recognises.cons fun c =>
    integerBody_recognises 13 (b.toNat % 32 * 256 + c.toNat)).congr fun s bs => ?_
  constructor
  · rintro ⟨c, size, rfl, rfl, h⟩
    refine ⟨[c], size, ⟨c, rfl, rfl⟩, ?_, rfl⟩
    rw [h, List.length_singleton, backlenWidth_of_le (by decide)]
  · rintro ⟨_, size, ⟨c, rfl, rfl⟩, hsize, rfl⟩
    rw [List.length_singleton, backlenWidth_of_le (by decide)] at hsize
    exact ⟨c, size, rfl, rfl, hsize⟩

/-- The length goes over into a second byte. -/
theorem mediumString_recognises {b : UInt8} (hb : b.toNat / 16 = 14) :
    Recognises (do stringBody 2 (b.toNat % 16 * 256 + (← byte).toNat))
      fun s bs => ElementForm s (b :: bs) := by
  simp only [elementForm_cons_iff, bodyForm_twelve_iff hb]
  have hwidth (c : UInt8) (s : Bytes) :
      backlenWidth ((c :: s).length + 1 : Nat) = backlenWidth (2 + s.length : Nat) := by
    rw [List.length_cons]
    congr 2
    omega
  refine (Recognises.cons fun c =>
    stringBody_recognises 2 (b.toNat % 16 * 256 + c.toNat)).congr fun s bs => ?_
  constructor
  · rintro ⟨c, _, rfl, hs, size, hsize, rfl⟩
    refine ⟨c :: s, size, ⟨c, rfl, hs⟩, ?_, rfl⟩
    rw [hsize, ← hs, hwidth]
  · rintro ⟨_, size, ⟨c, rfl, hs⟩, hsize, rfl⟩
    refine ⟨c, _, rfl, hs, size, ?_, rfl⟩
    rw [hsize, ← hs, hwidth]

theorem elementFrom_recognises (b : UInt8) :
    Recognises (elementFrom b) fun s bs => ElementForm s (b :: bs) := by
  unfold elementFrom
  dsimp only
  split
  · rename_i hb
    exact smallInteger_recognises hb
  · rename_i h₁
    split
    · rename_i hb
      exact shortString_recognises (by omega)
    · rename_i h₂
      split
      · rename_i hb
        exact mediumInteger_recognises (by omega)
      · rename_i h₃
        split
        · rename_i hb
          exact mediumString_recognises (by omega)
        · exact wideElement_recognises (by omega)

/-- An element is recognised by its form. -/
theorem ElementForm.exists_cons {s bs : Bytes} (h : ElementForm s bs) : ∃ b cs, bs = b :: cs := by
  obtain @⟨body, size, hbody, -⟩ := h
  obtain ⟨b, cs, rfl⟩ := hbody.exists_cons
  exact ⟨b, cs ++ size, rfl⟩

theorem element_recognises : Recognises element ElementForm :=
  Recognises.first (fun h => h.exists_cons) elementFrom_recognises

/-! ### Whole listpacks -/

theorem finish_eq_ok_iff {s s' : Scanner} :
    finish s = .ok () s' ↔ Scanner.Passes [endMark] s s' := by
  have hk : ∀ b : UInt8, Recognises (if b = endMark then return () else fail
      "listpack did not end with 0xff byte") fun (_ : Unit) bs => b = endMark ∧ bs = [] := by
    intro b
    split
    · rename_i hb
      refine (Recognises.pure ()).congr fun _ bs => ?_
      simp [hb]
    · rename_i hb
      refine (Recognises.fail _).congr fun _ bs => ?_
      simp [hb]
  refine (Recognises.cons hk s () s').trans ?_
  constructor
  · rintro ⟨_, ⟨b, _, rfl, rfl, rfl⟩, hp⟩
    exact hp
  · intro hp
    exact ⟨_, ⟨endMark, [], rfl, rfl, rfl⟩, hp⟩

/-- **The listpacks that are decoded** are just those of the form, and give its elements. -/
theorem decode_eq_ok_iff {data : Bytes} {xs : List Bytes} :
    decode data = .ok xs ↔ Form xs data := by
  have hbody (s' : Scanner) : body (Scanner.start "listpack" data) = .ok xs s' ↔
      ∃ known bs, ElementsForm leadingBytes uncounted ElementForm xs known bs ∧
        Scanner.Passes bs (Scanner.start "listpack" data) s' ∧ (known = false → AtEnd s') :=
    elements_eq_ok_iff element_recognises element_eager rfl
  rw [decode, Scan.decode_eq_ok_iff]
  constructor
  · rintro ⟨s', hr⟩
    obtain ⟨values, s₁, hvalues, hr⟩ := bind_eq_ok hr
    obtain ⟨_, s₂, hfinish, hpure⟩ := bind_eq_ok hr
    cases hpure
    obtain ⟨known, bs, hform, hp, -⟩ := (hbody s₁).mp hvalues
    have hend := finish_eq_ok_iff.mp hfinish
    rw [show data = bs ++ s₁.rest from hp.rest, hend.rest]
    exact .intro _ hform
  · intro h
    obtain @⟨known, bs, rest, hform⟩ := h
    let s₁ : Scanner := { container := "listpack", offset := 0 + bs.length, rest := endMark :: rest }
    let s₂ : Scanner := { container := "listpack", offset := 0 + bs.length + 1, rest := rest }
    have hvalues : body (Scanner.start "listpack" (bs ++ endMark :: rest)) = .ok xs s₁ :=
      (hbody s₁).mpr ⟨known, bs, hform, ⟨rfl, rfl, rfl⟩, fun _ => ⟨rest, rfl⟩⟩
    have hfinish : finish s₁ = .ok () s₂ := finish_eq_ok_iff.mpr ⟨rfl, rfl, rfl⟩
    exact ⟨s₂, (bind_of_ok hvalues).trans (bind_of_ok hfinish)⟩

end RedisDump.Listpack
