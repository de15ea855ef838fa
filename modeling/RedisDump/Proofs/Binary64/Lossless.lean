import RedisDump.Input.Text
import RedisDump.Proofs.Binary64.Numeral
import RedisDump.Proofs.Wire.Passing

/-!
# Binary scores without loss

A numeral is rounded to the pattern with its sign and with the nearest value
(`Binary64.Numeral.RoundsTo`). The text of a finite double is a numeral that is rounded to its very
pattern, and no numeral with fewer significant digits is (`Binary64.exists_numeral`). So the text
of a score in binary form tells its eight bytes, unless these are no number
(`Binary64.scoreBinary_lossless`).
-/

namespace RedisDump

namespace Binary64

/-- The numeral has the sign of the pattern, and is rounded to its value. -/
structure Numeral.RoundsTo (x : Numeral) (bits : Nat) : Prop where
  lt : bits < 2 ^ 64
  sign : x.negative = decide (2 ^ 63 ≤ bits)
  nearest : Nearest x.magnitude.value (bits % 2 ^ 63)

/-- A numeral is rounded to one pattern only. -/
theorem Numeral.RoundsTo.unique {x : Numeral} {bits bits' : Nat} (h : x.RoundsTo bits)
    (h' : x.RoundsTo bits') : bits = bits' := by
  have hsign : 2 ^ 63 ≤ bits ↔ 2 ^ 63 ≤ bits' := decide_eq_decide.mp (h.sign.symm.trans h'.sign)
  have hmagnitude := h.nearest.unique h'.nearest
  have hlt := h.lt
  have hlt' := h'.lt
  omega

/-! ### The text of a pattern -/

variable {bits : Nat}

theorem text_of_nan (h : bits < 2 ^ 64) (hnan : infinityBits < bits % 2 ^ 63) :
    (ofBits bits).text = Bytes.ofAscii "nan" := by
  rw [ofBits_eq h, if_pos hnan]
  rfl

theorem text_of_infinity (h : bits < 2 ^ 64) (hinf : bits % 2 ^ 63 = infinityBits) :
    (ofBits bits).text = signed (decide (2 ^ 63 ≤ bits)) (Bytes.ofAscii "inf") := by
  rw [ofBits_eq h, if_neg (Nat.not_lt.mpr (Nat.le_of_eq hinf)), if_pos hinf]
  rfl

theorem text_of_finite (h : bits < 2 ^ 64) (hfin : bits % 2 ^ 63 < infinityBits) :
    (ofBits bits).text = signed (decide (2 ^ 63 ≤ bits))
      (magnitudeText (significand (bits % 2 ^ 63)) (exponent (bits % 2 ^ 63))) := by
  rw [ofBits_eq h, if_neg (Nat.lt_asymm hfin), if_neg (Nat.ne_of_lt hfin)]
  rfl

/-- The infinities are spelled by no numeral. -/
theorem ofText?_infinity (negative : Bool) :
    Numeral.ofText? (signed negative (Bytes.ofAscii "inf")) = none := by
  cases negative <;> rfl

/-- **The text of a finite double is a numeral that is rounded to its pattern**, and has the fewest
significant digits of all that are. -/
theorem exists_numeral (h : bits < 2 ^ 64) (hfin : bits % 2 ^ 63 < infinityBits) :
    ∃ x, Numeral.ofText? (ofBits bits).text = some x ∧ x.RoundsTo bits ∧
      ∀ y : Numeral, y.RoundsTo bits → x.magnitude.significant ≤ y.magnitude.significant := by
  obtain ⟨d, hd, hvalue⟩ := exists_ofText?_magnitudeText (significand (bits % 2 ^ 63))
    (exponent (bits % 2 ^ 63))
  refine ⟨⟨decide (2 ^ 63 ≤ bits), d⟩, ?_, ⟨h, rfl, ?_⟩, fun y hy => ?_⟩
  · rw [text_of_finite h hfin]
    exact Numeral.ofText?_signed hd _
  · obtain hzero | hpos := Nat.eq_zero_or_pos (bits % 2 ^ 63)
    · rw [hzero] at hvalue ⊢
      rw [hvalue]
      exact nearest_zero
    · have hm := significand_pos hpos
      rw [nearest_iff_within hpos hfin, hvalue, if_neg (Nat.ne_of_gt hm)]
      exact within_shortest hm _
  · obtain hzero | hpos := Nat.eq_zero_or_pos (bits % 2 ^ 63)
    · rw [hzero] at hvalue
      have hnone : ((0 : Nat) : ℚ) * 10 ^ (0 : Int) = d.value := by
        rw [hvalue, Nat.cast_zero, zero_mul]
        rfl
      exact Nat.le_trans (Decimal.significant_le Nat.one_pos hnone) (Nat.zero_le _)
    · have hm := significand_pos hpos
      obtain ⟨n, e, hn, hy'⟩ := y.magnitude.exists_significant
      have hwithin := (nearest_iff_within hpos hfin).mp hy.nearest
      rw [← hy'] at hwithin
      obtain ⟨n', e', hn', hshort⟩ := shortest_minimal hm hn hwithin
      rw [if_neg (Nat.ne_of_gt hm)] at hvalue
      exact Decimal.significant_le hn' (hshort.trans hvalue.symm)

/-- Patterns of numbers have the same text only if they are the same. -/
theorem text_inj {bits' : Nat} (h : bits < 2 ^ 64) (h' : bits' < 2 ^ 64)
    (hnum : bits % 2 ^ 63 ≤ infinityBits) (hnum' : bits' % 2 ^ 63 ≤ infinityBits)
    (htext : (ofBits bits).text = (ofBits bits').text) : bits = bits' := by
  obtain hfin | hinf := Nat.lt_or_eq_of_le hnum <;> obtain hfin' | hinf' := Nat.lt_or_eq_of_le hnum'
  · obtain ⟨x, hx, hrounds, -⟩ := exists_numeral h hfin
    obtain ⟨x', hx', hrounds', -⟩ := exists_numeral h' hfin'
    rw [htext, hx'] at hx
    cases hx
    exact hrounds.unique hrounds'
  · obtain ⟨x, hx, -⟩ := exists_numeral h hfin
    rw [htext, text_of_infinity h' hinf', ofText?_infinity] at hx
    cases hx
  · obtain ⟨x, hx, -⟩ := exists_numeral h' hfin'
    rw [← htext, text_of_infinity h hinf, ofText?_infinity] at hx
    cases hx
  · rw [text_of_infinity h hinf, text_of_infinity h' hinf'] at htext
    by_cases hsign : 2 ^ 63 ≤ bits <;> by_cases hsign' : 2 ^ 63 ≤ bits'
    · omega
    · rw [decide_eq_true hsign, decide_eq_false hsign'] at htext
      exact absurd htext (by decide)
    · rw [decide_eq_false hsign, decide_eq_true hsign'] at htext
      exact absurd htext (by decide)
    · omega

/-! ### Scores -/

/-- What a text tells of the pattern that it is the text of. -/
structure Tells (text : Bytes) (bits : Nat) : Prop where
  nan : infinityBits < bits % 2 ^ 63 → text = Bytes.ofAscii "nan"
  infinity : bits % 2 ^ 63 = infinityBits →
    text = if 2 ^ 63 ≤ bits then Bytes.ofAscii "-inf" else Bytes.ofAscii "inf"
  numeral : bits % 2 ^ 63 < infinityBits → ∃ x, Numeral.ofText? text = some x ∧ x.RoundsTo bits ∧
    (∀ bits', x.RoundsTo bits' → bits' = bits) ∧
    ∀ y : Numeral, y.RoundsTo bits → x.magnitude.significant ≤ y.magnitude.significant

theorem tells_text (h : bits < 2 ^ 64) : Tells (ofBits bits).text bits where
  nan := text_of_nan h
  infinity hinf := by
    rw [text_of_infinity h hinf]
    by_cases hsign : 2 ^ 63 ≤ bits
    · rw [decide_eq_true hsign, if_pos hsign]
      decide
    · rw [decide_eq_false hsign, if_neg hsign]
      decide
  numeral hfin := by
    obtain ⟨x, hx, hrounds, hfewest⟩ := exists_numeral h hfin
    exact ⟨x, hx, hrounds, fun _ h' => h'.unique hrounds, hfewest⟩

theorem scoreBinary_recognises : Recognises Read.scoreBinary fun text bs =>
    bs.length = 8 ∧ text = (ofBits bs.leNat).text := by
  refine ((Read.bytes_recognises 8).map fun bs => (ofBytes bs).text).congr fun text bs => ?_
  constructor
  · rintro ⟨_, ⟨rfl, hlength⟩, rfl⟩
    exact ⟨hlength, rfl⟩
  · rintro ⟨hlength, rfl⟩
    exact ⟨bs, ⟨rfl, hlength⟩, rfl⟩

/-- **Binary scores lose nothing.** Eight bytes that an input gives are read as a score. Its text
spells a numeral with the sign of the pattern that is rounded to this pattern alone, and to which no
numeral with fewer significant digits is rounded; the infinities and what is no number have texts of
their own. So scores with the same text were stored in the same bytes, unless they are no numbers. -/
theorem scoreBinary_lossless :
    (∀ (bs : Bytes) (i after : Input), bs.length = 8 → Input.Gives bs i after →
      ∃ text, Read.scoreBinary i = .ok text after ∧ Tells text bs.leNat) ∧
    ∀ (bs bs' : Bytes) (i i' after after' : Input) (text : Bytes),
      bs.length = 8 → bs'.length = 8 → Input.Gives bs i after → Input.Gives bs' i' after' →
        bs.leNat % 2 ^ 63 ≤ infinityBits → bs'.leNat % 2 ^ 63 ≤ infinityBits →
          Read.scoreBinary i = .ok text after → Read.scoreBinary i' = .ok text after' →
            bs = bs' := by
  have hlt {bs : Bytes} (hlength : bs.length = 8) : bs.leNat < 2 ^ 64 := by
    have h := Bytes.leNat_lt bs
    rwa [hlength] at h
  have hread {bs : Bytes} {i after : Input} (hlength : bs.length = 8)
      (hgives : Input.Gives bs i after) :
      Read.scoreBinary i = .ok (ofBits bs.leNat).text after :=
    (scoreBinary_recognises i _ after).mpr ⟨bs, ⟨hlength, rfl⟩, hgives⟩
  refine ⟨fun bs i after hlength hgives => ⟨_, hread hlength hgives, tells_text (hlt hlength)⟩,
    fun bs bs' i i' after after' text hlength hlength' hgives hgives' hnum hnum' hi hi' => ?_⟩
  have htext := (EStateM.Result.ok.inj ((hread hlength hgives).symm.trans hi)).1
  have htext' := (EStateM.Result.ok.inj ((hread hlength' hgives').symm.trans hi')).1
  have hbits := text_inj (hlt hlength) (hlt hlength') hnum hnum' (htext.trans htext'.symm)
  rw [← Bytes.leBytes_leNat bs, ← Bytes.leBytes_leNat bs', hlength, hlength', hbits]

/-- The bytes of the double nearest to a tenth. -/
def tenth : Bytes :=
  [0x9A, 0x99, 0x99, 0x99, 0x99, 0x99, 0xB9, 0x3F]

/-- The text of a tenth is rounded to its own pattern and not to the next one, and no numeral without
a significant digit is rounded to it. -/
theorem scoreBinary_lossless_tenth :
    Read.scoreBinary { source := .ofBytes [], unread := tenth } =
        .ok (Bytes.ofAscii "0.1") { source := .ofBytes [], consumed := 8 } ∧
      (Numeral.mk false ⟨1, -1⟩).RoundsTo 0x3FB999999999999A ∧
      ¬ (Numeral.mk false ⟨1, -1⟩).RoundsTo 0x3FB999999999999B ∧
      ∀ y : Numeral, y.RoundsTo 0x3FB999999999999A → 1 ≤ y.magnitude.significant := by
  have hgives : Input.Gives tenth { source := .ofBytes [], unread := tenth }
      { source := .ofBytes [], consumed := 8 } :=
    .cons rfl (.cons rfl (.cons rfl (.cons rfl (.cons rfl (.cons rfl (.cons rfl (.cons rfl
      (.nil _))))))))
  have htext : Read.scoreBinary { source := .ofBytes [], unread := tenth } =
      .ok (Bytes.ofAscii "0.1") { source := .ofBytes [], consumed := 8 } := rfl
  have hspelled : Numeral.ofText? (Bytes.ofAscii "0.1") = some ⟨false, ⟨1, -1⟩⟩ := by decide
  obtain ⟨text, hread, htells⟩ := scoreBinary_lossless.1 tenth _ _ rfl hgives
  rw [htext] at hread
  cases hread
  obtain ⟨x, hx, hrounds, honly, hfewest⟩ := htells.numeral (by decide)
  rw [hspelled] at hx
  cases hx
  exact ⟨htext, hrounds, fun h => absurd (honly _ h) (by decide), hfewest⟩

end Binary64

end RedisDump
