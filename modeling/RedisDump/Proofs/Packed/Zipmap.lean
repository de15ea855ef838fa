import RedisDump.Packed.Zipmap
import RedisDump.Proofs.Packed.Scanning

/-!
# Zipmaps by their form

The forms in which the pairs of a zipmap may stand, and the zipmaps that are decoded: just those
with any byte in front, pairs, and the end mark behind them (`Zipmap.decode_eq_ok_iff`).
-/

namespace RedisDump.Zipmap

open Scan

/-! ### Forms -/

/-- The forms of a length: one byte, or four behind a mark. -/
inductive LengthForm (n : Nat) : Bytes → Prop where
  | short : n < longLength → LengthForm n [UInt8.ofNat n]
  | long : n < 2 ^ 32 → LengthForm n (0xFD :: Bytes.beBytes 4 n)

/-- The forms of a pair: each part behind its length, and behind the length of the value the number
of unused bytes after it. -/
inductive PairForm : Bytes × Bytes → Bytes → Prop where
  | intro {k v keyLength valueLength unused : Bytes} {free : UInt8} :
    LengthForm k.length keyLength → LengthForm v.length valueLength → unused.length = free.toNat →
      PairForm (k, v) (keyLength ++ (k ++ (valueLength ++ (free :: (v ++ unused)))))

/-- The zipmaps with the given pairs. The first byte says nothing, and behind the end mark anything
may follow. -/
inductive Form (ps : List (Bytes × Bytes)) : Bytes → Prop where
  | intro {bs : Bytes} (count : UInt8) (rest : Bytes) :
    Wire.Sequence PairForm ps bs → Form ps (count :: (bs ++ endMark :: rest))

/-! ### Pairs -/

theorem lengthForm_cons_iff {b : UInt8} {n : Nat} {bs : Bytes} :
    LengthForm n (b :: bs) ↔
      (b.toNat < longLength ∧ n = b.toNat ∧ bs = []) ∨
      b.toNat = longLength ∧ n < 2 ^ 32 ∧ bs = Bytes.beBytes 4 n := by
  constructor
  · intro h
    cases h with
    | short hn =>
      have hb : (UInt8.ofNat n).toNat = n :=
        UInt8.toNat_ofNat_of_lt (Nat.lt_trans hn (by decide))
      exact .inl ⟨by rwa [hb], hb.symm, rfl⟩
    | long hn => exact .inr ⟨rfl, hn, rfl⟩
  · rintro (⟨hb, rfl, rfl⟩ | ⟨hb, hn, rfl⟩)
    · have h : LengthForm b.toNat [UInt8.ofNat b.toNat] := .short hb
      rwa [UInt8.ofNat_toNat] at h
    · have h : LengthForm n (UInt8.ofNat longLength :: Bytes.beBytes 4 n) := .long hn
      rwa [← hb, UInt8.ofNat_toNat] at h

theorem LengthForm.exists_cons {n : Nat} {bs : Bytes} (h : LengthForm n bs) :
    ∃ b cs, bs = b :: cs := by
  cases h <;> exact ⟨_, _, rfl⟩

theorem LengthForm.length_pos {n : Nat} {bs : Bytes} (h : LengthForm n bs) : 0 < bs.length := by
  obtain ⟨b, cs, rfl⟩ := h.exists_cons
  exact Nat.succ_pos _

theorem length_recognises : Recognises length LengthForm := by
  have hk : ∀ b : UInt8, Recognises (if b.toNat < longLength then return b.toNat
      else if b.toNat = longLength then bigEndian 4
      else fail s!"invalid length byte {b.toNat}") fun n bs => LengthForm n (b :: bs) := by
    intro b
    simp only [lengthForm_cons_iff]
    split
    · rename_i hb
      refine (Recognises.pure b.toNat).congr fun n bs => ?_
      simp [hb, Nat.ne_of_lt hb]
    · rename_i hshort
      split
      · rename_i hlong
        refine (Recognises.bigEndian 4).congr fun n bs => ?_
        simp [hlong]
      · rename_i hlong
        refine (Recognises.fail _).congr fun n bs => ?_
        simp [hshort, hlong]
  exact Recognises.first (fun h => h.exists_cons) hk

theorem key_recognises : Recognises key fun k bs =>
    ∃ len, LengthForm k.length len ∧ bs = len ++ k := by
  refine (length_recognises.bind fun n => Recognises.take n).congr fun k bs => ?_
  constructor
  · rintro ⟨_, len, _, hlen, ⟨rfl, rfl⟩, rfl⟩
    exact ⟨len, hlen, rfl⟩
  · rintro ⟨len, hlen, rfl⟩
    exact ⟨_, len, k, hlen, ⟨rfl, rfl⟩, rfl⟩

theorem value_recognises : Recognises value fun v bs =>
    ∃ (len unused : Bytes) (free : UInt8), LengthForm v.length len ∧
      unused.length = free.toNat ∧ bs = len ++ (free :: (v ++ unused)) := by
  refine (length_recognises.bind fun n => Recognises.cons fun free =>
    (Recognises.take n).bind fun v => (Recognises.skip free.toNat).map fun _ => v).congr
    fun v bs => ?_
  constructor
  · rintro ⟨_, len, _, hlen, ⟨free, _, rfl, _, _, unused, ⟨rfl, rfl⟩, ⟨-, hunused, rfl⟩, rfl⟩, rfl⟩
    exact ⟨len, unused, free, hlen, hunused, rfl⟩
  · rintro ⟨len, unused, free, hlen, hunused, rfl⟩
    exact ⟨_, len, _, hlen, ⟨free, _, rfl, v, v, unused, ⟨rfl, rfl⟩, ⟨(), hunused, rfl⟩, rfl⟩, rfl⟩

/-- A pair is recognised by its form. -/
theorem pair_recognises : Recognises pair PairForm := by
  refine (key_recognises.bind fun k => value_recognises.map fun v => (k, v)).congr fun p bs => ?_
  constructor
  · rintro ⟨k, _, _, ⟨len, hk, rfl⟩, ⟨v, ⟨len', unused, free, hv, hunused, rfl⟩, rfl⟩, rfl⟩
    rw [List.append_assoc]
    exact .intro hk hv hunused
  · rintro ⟨hk, hv, hunused⟩
    exact ⟨_, _, _, ⟨_, hk, rfl⟩, ⟨_, ⟨_, _, _, hv, hunused, rfl⟩, rfl⟩,
      (List.append_assoc ..).symm⟩

/-- No length starts with the end mark. -/
theorem LengthForm.first_ne {n : Nat} {b : UInt8} {bs : Bytes} (h : LengthForm n (b :: bs)) :
    b ≠ endMark := by
  rintro rfl
  have hmark : endMark.toNat = 0xFF := rfl
  have hlong : longLength = 0xFD := rfl
  obtain ⟨h, -⟩ | ⟨h, -⟩ := lengthForm_cons_iff.mp h <;> omega

/-- No pair can be taken for the end mark. -/
theorem PairForm.unmarked {p : Bytes × Bytes} {bs : Bytes} (h : PairForm p bs) :
    Unmarked PairForm p bs := by
  refine ⟨h, ?_⟩
  obtain ⟨hk, -, -⟩ := h
  obtain ⟨b, cs, rfl⟩ := hk.exists_cons
  exact fun hb => hk.first_ne (Option.some.inj hb)

/-! ### Whole zipmaps -/

/-- **The zipmaps that are decoded** are just those of the form, and give its pairs one after the
other. -/
theorem decode_eq_ok_iff {data : Bytes} {xs : List Bytes} :
    decode data = .ok xs ↔ ∃ ps, Form ps data ∧ xs = Bytes.flattenPairs ps := by
  constructor
  · intro h
    obtain ⟨ps, hps, rfl⟩ := exists_of_map_ok h
    obtain ⟨s', hr⟩ := Scan.decode_eq_ok_iff.mp hps
    obtain ⟨count, s₁, hbyte, hr⟩ := bind_eq_ok hr
    obtain ⟨_, rfl, hp⟩ := (Recognises.byte _ _ _).mp hbyte
    obtain ⟨bs, hs, hp', rest, hrest⟩ := (untilEnd_eq_ok_iff pair_recognises pair_eager).mp hr
    refine ⟨ps, ?_, rfl⟩
    rw [show data = [count] ++ s₁.rest from hp.rest, hp'.rest, hrest]
    exact .intro count rest (hs.mono fun _ _ h => h.1)
  · rintro ⟨ps, ⟨count, rest, hs⟩, rfl⟩
    rename_i bs
    let s₁ : Scanner := { container := "zipmap", offset := 0 + 1, rest := bs ++ endMark :: rest }
    let s₂ : Scanner :=
      { container := "zipmap", offset := 0 + 1 + bs.length, rest := endMark :: rest }
    have hwalk : untilEnd pair pair_eager s₁ = .ok ps s₂ :=
      (untilEnd_eq_ok_iff pair_recognises pair_eager).mpr
        ⟨bs, hs.mono fun _ _ h => h.unmarked, ⟨rfl, rfl, rfl⟩, rest, rfl⟩
    have hbyte : byte (Scanner.start "zipmap" (count :: (bs ++ endMark :: rest))) =
        .ok count s₁ := rfl
    have hr : Scan.decode "zipmap" pairs (count :: (bs ++ endMark :: rest)) = .ok ps :=
      Scan.decode_eq_ok_iff.mpr ⟨s₂, (bind_of_ok hbyte).trans hwalk⟩
    rw [decode, hr]
    rfl

end RedisDump.Zipmap
