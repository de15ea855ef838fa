import RedisDump.Proofs.Expansion
import RedisDump.Proofs.Wire.Passing

/-!
# Lengths, strings and scores on the wire

The forms in which a length, a string or a score may stand in a snapshot, as relations that know
no reader. A length has four forms, of which the wider ones may be used for a small length too. A
string is stored byte by byte, as the integer whose decimal text it is, or compressed. Every form
is read as what it stands for (`Length.reads`, `Text.reads`, `ScoreText.reads`,
`ScoreBinary.reads`), and lengths and strings are read from nothing but their forms
(`length_recognises`, `text_recognises`).
-/

namespace RedisDump

namespace Wire

/-! ### Lengths -/

/-- The forms of a length: in the low six bits of a byte, in the low fourteen bits of two, or in
the four or eight bytes after a mark. -/
inductive Length (n : Nat) : Bytes → Prop where
  | six : n < 2 ^ 6 → Length n [UInt8.ofNat n]
  | fourteen : n < 2 ^ 14 → Length n [UInt8.ofNat (0x40 + n / 256), UInt8.ofNat (n % 256)]
  | thirtyTwo : n < 2 ^ 32 → Length n (Read.length32 :: Bytes.beBytes 4 n)
  | sixtyFour : n < 2 ^ 64 → Length n (Read.length64 :: Bytes.beBytes 8 n)

theorem reads_littleEndian {width n : Nat} (h : n < 256 ^ width) :
    Reads (Bytes.leBytes width n) (Read.littleEndian width) n :=
  (Read.littleEndian_recognises width).reads ⟨h, rfl⟩

theorem Length.exists_cons {n : Nat} {bs : Bytes} (h : Length n bs) : ∃ b cs, bs = b :: cs := by
  cases h <;> exact ⟨_, _, rfl⟩

/-- What follows the first byte of a length. -/
theorem length_cons_iff {n : Nat} {b : UInt8} {bs : Bytes} :
    Length n (b :: bs) ↔
      (b.toNat / 64 = 0 ∧ n = b.toNat ∧ bs = []) ∨
      (b.toNat / 64 = 1 ∧ ∃ c : UInt8, n = b.toNat % 64 * 256 + c.toNat ∧ bs = [c]) ∨
      (b.toNat / 64 = 2 ∧
        (b = Read.length32 ∧ n < 256 ^ 4 ∧ bs = Bytes.beBytes 4 n ∨
          b = Read.length64 ∧ n < 256 ^ 8 ∧ bs = Bytes.beBytes 8 n)) := by
  constructor
  · intro h
    generalize hcs : b :: bs = cs at h
    cases h with
    | six h =>
      cases hcs
      have hb : (UInt8.ofNat n).toNat = n := UInt8.toNat_ofNat_of_lt (Nat.lt_trans h (by decide))
      rw [hb]
      exact .inl ⟨Nat.div_eq_of_lt h, rfl, rfl⟩
    | fourteen h =>
      cases hcs
      have hb : (UInt8.ofNat (0x40 + n / 256)).toNat = 0x40 + n / 256 :=
        UInt8.toNat_ofNat_of_lt (show _ < 256 by omega)
      have hc : (UInt8.ofNat (n % 256)).toNat = n % 256 :=
        UInt8.toNat_ofNat_of_lt (Nat.mod_lt _ (by decide))
      refine .inr (.inl ⟨?_, _, ?_, rfl⟩)
      · omega
      · omega
    | thirtyTwo h =>
      cases hcs
      exact .inr (.inr ⟨rfl, .inl ⟨rfl, h, rfl⟩⟩)
    | sixtyFour h =>
      cases hcs
      exact .inr (.inr ⟨rfl, .inr ⟨rfl, h, rfl⟩⟩)
  · rintro (⟨hb, rfl, rfl⟩ | ⟨hb, c, rfl, rfl⟩ | ⟨-, ⟨rfl, hn, rfl⟩ | ⟨rfl, hn, rfl⟩⟩)
    · have hform : Length b.toNat [UInt8.ofNat b.toNat] := .six (by omega)
      rwa [UInt8.ofNat_toNat] at hform
    · have hc : c.toNat < 256 := c.toNat_lt
      generalize hn : b.toNat % 64 * 256 + c.toNat = n
      have hform : Length n [UInt8.ofNat (0x40 + n / 256), UInt8.ofNat (n % 256)] :=
        .fourteen (by omega)
      rwa [show 0x40 + n / 256 = b.toNat by omega, show n % 256 = c.toNat by omega,
        UInt8.ofNat_toNat, UInt8.ofNat_toNat] at hform
    · exact .thirtyTwo hn
    · exact .sixtyFour hn

/-- The first byte of a length is not that of a string in a special encoding. -/
theorem Length.first_ne {n : Nat} {b : UInt8} {bs : Bytes} (h : Length n (b :: bs)) :
    b.toNat / 64 ≠ 3 := by
  obtain ⟨hb, -⟩ | ⟨hb, -⟩ | ⟨hb, -⟩ := length_cons_iff.mp h <;> omega

theorem wideLength_recognises (b : UInt8) : Recognises (Read.wideLength b) fun n bs =>
    b = Read.length32 ∧ n < 256 ^ 4 ∧ bs = Bytes.beBytes 4 n ∨
      b = Read.length64 ∧ n < 256 ^ 8 ∧ bs = Bytes.beBytes 8 n := by
  have hne : Read.length32 ≠ Read.length64 := by decide
  unfold Read.wideLength
  split
  · rename_i h32
    refine (Read.bigEndian_recognises 4).congr fun n bs => ?_
    simp only [h32, hne, true_and, false_and, or_false]
  · rename_i h32
    split
    · rename_i h64
      refine (Read.bigEndian_recognises 8).congr fun n bs => ?_
      simp only [h64, hne.symm, true_and, false_and, false_or]
    · rename_i h64
      refine (Recognises.throw _).congr fun n bs => ?_
      simp only [h32, h64, false_and, or_false]

theorem lengthFrom_recognises (b : UInt8) :
    Recognises (Read.lengthFrom b) fun n bs => Length n (b :: bs) := by
  simp only [length_cons_iff]
  unfold Read.lengthFrom
  split
  · rename_i hb
    refine (Recognises.pure b.toNat).congr fun n bs => ?_
    simp only [hb, Nat.reduceEqDiff, true_and, false_and, or_false]
  · rename_i hb
    refine (Read.byte_recognises.map fun c => b.toNat % 64 * 256 + c.toNat).congr fun n bs => ?_
    simp only [hb, Nat.reduceEqDiff, true_and, false_and, or_false, false_or, Single, and_comm]
  · rename_i hb
    refine (wideLength_recognises b).congr fun n bs => ?_
    simp only [hb, Nat.reduceEqDiff, true_and, false_and, false_or]
  · rename_i h0 h1 h2
    refine (Recognises.throw _).congr fun n bs => ?_
    simp only [imp_false] at h0 h1 h2
    simp only [h0, h1, h2, false_and, or_false]

/-- A length is recognised in all of its forms. -/
theorem length_recognises : Recognises Read.length Length :=
  .ofFirst Read.byte_recognises Length.exists_cons lengthFrom_recognises

theorem Length.reads {n : Nat} {bs : Bytes} (h : Length n bs) : Reads bs Read.length n :=
  length_recognises.reads h

/-! ### Strings -/

/-- The integers that may stand for their decimal text. -/
inductive Compact where
  | int8
  | int16
  | int32
  deriving DecidableEq, Repr

/-- The number of bytes of an integer. -/
def Compact.width : Compact → Nat
  | int8 => 1
  | int16 => 2
  | int32 => 4

/-- The byte that announces an integer. -/
def Compact.code : Compact → UInt8
  | int8 => 0xC0
  | int16 => 0xC1
  | int32 => 0xC2

/-- The byte that announces a compressed string. -/
def compressedCode : UInt8 := 0xC3

/-- The forms of a string of at most `limit` bytes. The declared length of a payload is a length
of a string too. -/
inductive Text (limit : Int) : Bytes → Bytes → Prop where
  | raw {s len : Bytes} : (s.length : Int) ≤ limit → Length s.length len → Text limit s (len ++ s)
  | compact (c : Compact) {z : Int} : Bytes.FitsSigned c.width z →
    Text limit (Bytes.decimal z) (c.code :: Bytes.signedBytes c.width z)
  | compressed {s payload packed size : Bytes} : (s.length : Int) ≤ limit →
    (payload.length : Int) ≤ limit → Length payload.length packed → Length s.length size →
    Lzf.decompressTo s.length payload = .ok s →
      Text limit s (compressedCode :: (packed ++ (size ++ payload)))

theorem Compact.code_inj {c d : Compact} : c.code = d.code ↔ c = d := by
  cases c <;> cases d <;> decide

theorem Compact.code_ne (c : Compact) : c.code ≠ compressedCode := by
  cases c <;> decide

theorem Compact.div_code (c : Compact) : c.code.toNat / 64 = 3 := by
  cases c <;> rfl

/-- What follows the first byte of a string. -/
theorem text_cons_iff {limit : Int} {s bs : Bytes} {b : UInt8} :
    Text limit s (b :: bs) ↔
      ((s.length : Int) ≤ limit ∧ ∃ len, Length s.length (b :: len) ∧ bs = len ++ s) ∨
      (∃ c : Compact, c.code = b ∧ ∃ z, Bytes.FitsSigned c.width z ∧ s = Bytes.decimal z ∧
        bs = Bytes.signedBytes c.width z) ∨
      (b = compressedCode ∧ ∃ payload packed size, (s.length : Int) ≤ limit ∧
        (payload.length : Int) ≤ limit ∧ Length payload.length packed ∧ Length s.length size ∧
        Lzf.decompressTo s.length payload = .ok s ∧ bs = packed ++ (size ++ payload)) := by
  constructor
  · intro h
    generalize hcs : b :: bs = cs at h
    cases h with
    | raw hs hlen =>
      obtain ⟨c, len, rfl⟩ := hlen.exists_cons
      cases hcs
      exact .inl ⟨hs, len, hlen, rfl⟩
    | compact c hz =>
      cases hcs
      exact .inr (.inl ⟨c, rfl, _, hz, rfl, rfl⟩)
    | compressed hs hp hpacked hsize hlzf =>
      cases hcs
      exact .inr (.inr ⟨rfl, _, _, _, hs, hp, hpacked, hsize, hlzf, rfl⟩)
  · rintro (⟨hs, len, hlen, rfl⟩ | ⟨c, rfl, z, hz, rfl, rfl⟩ | ⟨rfl, payload, packed, size, h⟩)
    · exact .raw hs hlen
    · exact .compact c hz
    · obtain ⟨hs, hp, hpacked, hsize, hlzf, rfl⟩ := h
      exact .compressed hs hp hpacked hsize hlzf

section FirstByte

variable {limit : Int} {s bs : Bytes} {b : UInt8}

theorem text_raw_iff (hb : b.toNat / 64 ≠ 3) : Text limit s (b :: bs) ↔
    (s.length : Int) ≤ limit ∧ ∃ len, Length s.length (b :: len) ∧ bs = len ++ s := by
  rw [text_cons_iff]
  constructor
  · rintro (h | ⟨c, rfl, -⟩ | ⟨rfl, -⟩)
    · exact h
    · exact absurd c.div_code hb
    · exact absurd rfl hb
  · exact .inl

/-- No length starts with the first byte of a special encoding. -/
theorem text_special_iff (hb : b.toNat / 64 = 3) : Text limit s (b :: bs) ↔
    (∃ c : Compact, c.code = b ∧ ∃ z, Bytes.FitsSigned c.width z ∧ s = Bytes.decimal z ∧
      bs = Bytes.signedBytes c.width z) ∨
    (b = compressedCode ∧ ∃ payload packed size, (s.length : Int) ≤ limit ∧
      (payload.length : Int) ≤ limit ∧ Length payload.length packed ∧ Length s.length size ∧
      Lzf.decompressTo s.length payload = .ok s ∧ bs = packed ++ (size ++ payload)) := by
  rw [text_cons_iff]
  refine or_iff_right ?_
  rintro ⟨-, len, hlen, -⟩
  exact hlen.first_ne hb

theorem text_compact_iff (c : Compact) : Text limit s (c.code :: bs) ↔
    ∃ z, Bytes.FitsSigned c.width z ∧ s = Bytes.decimal z ∧ bs = Bytes.signedBytes c.width z := by
  simp only [text_special_iff c.div_code, Compact.code_inj, exists_eq_left, c.code_ne, false_and,
    or_false]

theorem text_compressed_iff : Text limit s (compressedCode :: bs) ↔
    ∃ payload packed size, (s.length : Int) ≤ limit ∧ (payload.length : Int) ≤ limit ∧
      Length payload.length packed ∧ Length s.length size ∧
      Lzf.decompressTo s.length payload = .ok s ∧ bs = packed ++ (size ++ payload) := by
  have hb : compressedCode.toNat / 64 = 3 := rfl
  simp only [text_special_iff hb, Compact.code_ne, false_and, exists_false, false_or, true_and]

theorem not_text (hb : 0xC4 ≤ b.toNat) : ¬ Text limit s (b :: bs) := by
  have hlt : b.toNat < 256 := b.toNat_lt
  rw [text_special_iff (by omega)]
  rintro (⟨c, rfl, -⟩ | ⟨rfl, -⟩)
  · cases c <;> exact absurd hb (by decide)
  · exact absurd hb (by decide)

end FirstByte

theorem Text.exists_cons {limit : Int} {s bs : Bytes} (h : Text limit s bs) :
    ∃ b cs, bs = b :: cs := by
  cases h with
  | raw hs hlen =>
    obtain ⟨b, cs, rfl⟩ := hlen.exists_cons
    exact ⟨b, cs ++ s, rfl⟩
  | compact c => exact ⟨_, _, rfl⟩
  | compressed => exact ⟨_, _, rfl⟩

theorem checkTextLength_recognises (limit : Int) (n : Nat) :
    Recognises (Read.checkTextLength limit n) fun _ bs => (n : Int) ≤ limit ∧ bs = [] := by
  unfold Read.checkTextLength
  split
  · rename_i hlt
    refine (Recognises.throw _).congr fun _ bs => ⟨False.elim, fun h => ?_⟩
    omega
  · rename_i hle
    refine (Recognises.pure ()).congr fun _ bs => ?_
    simp only [true_and, Int.not_lt.mp hle]

theorem rawText_recognises (limit : Int) (n : Nat) :
    Recognises (Read.rawText limit n) fun s bs =>
      s = bs ∧ bs.length = n ∧ (n : Int) ≤ limit := by
  refine ((checkTextLength_recognises limit n).guarded (Read.bytes_recognises n)).congr
    fun s bs => ?_
  rw [and_comm, and_assoc]

theorem integerText_recognises {width : Nat} (hw : 0 < width) :
    Recognises (Read.integerText width) fun s bs =>
      ∃ z, Bytes.FitsSigned width z ∧ s = Bytes.decimal z ∧ bs = Bytes.signedBytes width z := by
  have hr := ((Read.bytes_recognises width).leInt hw).map Bytes.decimal
  simp only [bind_assoc, pure_bind] at hr
  refine hr.congr fun s bs => ?_
  constructor
  · rintro ⟨z, ⟨hz, rfl⟩, rfl⟩
    exact ⟨z, hz, rfl, rfl⟩
  · rintro ⟨z, hz, rfl, rfl⟩
    exact ⟨z, ⟨hz, rfl⟩, rfl⟩

theorem compressedText_recognises (limit : Int) :
    Recognises (Read.compressedText limit) fun s bs => Text limit s (compressedCode :: bs) := by
  -- The judgement is named, and its match on the expansion left to unification: a second match
  -- written out here would be compared with it by evaluating the expansion.
  let expands (n : Nat) (payload s : Bytes) : Prop := Lzf.decompressTo n payload = .ok s
  refine (length_recognises.bind fun m => length_recognises.bind fun n =>
    (checkTextLength_recognises limit n).guarded ((rawText_recognises limit m).judged
      (show ∀ payload, Recognises _ fun s bs => expands n payload s ∧ bs = [] from
        fun payload => ?_))).congr fun s bs => ?_
  · split
    · rename_i x hx
      refine (Recognises.pure x).congr fun s bs => ?_
      simp only [expands, hx, Except.ok.injEq, eq_comm]
    · rename_i e he
      refine (Recognises.throw _).congr fun s bs => ?_
      simp only [expands, he, reduceCtorEq, false_and]
  rw [text_compressed_iff]
  constructor
  · rintro ⟨m, packed, _, hpacked, ⟨n, size, _, hsize, ⟨hn, payload, ⟨rfl, rfl, hm⟩, hlzf⟩, rfl⟩,
      rfl⟩
    have hlen := Lzf.length_of_decompressTo hlzf
    subst hlen
    exact ⟨payload, packed, size, hn, hm, hpacked, hsize, hlzf, rfl⟩
  · rintro ⟨payload, packed, size, hn, hm, hpacked, hsize, hlzf, rfl⟩
    exact ⟨_, packed, _, hpacked, ⟨_, size, payload, hsize, ⟨hn, payload, ⟨rfl, rfl, hm⟩, hlzf⟩,
      rfl⟩, rfl⟩

/-- A byte is known by its two top bits and the six low ones. -/
theorem eq_of_div_eq {b c : UInt8} (hdiv : b.toNat / 64 = c.toNat / 64)
    (hmod : b.toNat % 64 = c.toNat % 64) : b = c :=
  UInt8.toNat_inj.mp (by omega)

theorem specialText_recognises (limit : Int) {b : UInt8} (hb : b.toNat / 64 = 3) :
    Recognises (Read.specialText limit (b.toNat % 64)) fun s bs => Text limit s (b :: bs) := by
  have hinteger (c : Compact) (hc : b = c.code) :
      Recognises (Read.integerText c.width) fun s bs => Text limit s (b :: bs) := by
    have hwidth : 0 < c.width := by cases c <;> decide
    rw [hc]
    exact (integerText_recognises hwidth).congr fun s bs => (text_compact_iff c).symm
  unfold Read.specialText
  split
  · rename_i h
    exact hinteger .int8 (eq_of_div_eq hb h)
  · rename_i h
    exact hinteger .int16 (eq_of_div_eq hb h)
  · rename_i h
    exact hinteger .int32 (eq_of_div_eq hb h)
  · rename_i h
    rw [show b = compressedCode from eq_of_div_eq hb h]
    exact compressedText_recognises limit
  · rename_i h0 h1 h2 h3
    simp only [imp_false] at h0 h1 h2 h3
    refine (Recognises.throw _).congr fun s bs => ⟨False.elim, ?_⟩
    exact not_text (by omega)

/-- A string is recognised in all of its forms. -/
theorem text_recognises (limit : Int) : Recognises (Read.text limit) (Text limit) := by
  have hfrom (b : UInt8) : Recognises (do
      if b.toNat / 64 = 3 then Read.specialText limit (b.toNat % 64)
      else Read.rawText limit (← Read.lengthFrom b)) fun s bs => Text limit s (b :: bs) := by
    split
    · rename_i hb
      exact specialText_recognises limit hb
    · rename_i hb
      refine ((lengthFrom_recognises b).bind fun n => rawText_recognises limit n).congr
        fun s bs => ?_
      rw [text_raw_iff hb]
      constructor
      · rintro ⟨n, len, _, hlen, ⟨rfl, rfl, hn⟩, rfl⟩
        exact ⟨hn, len, hlen, rfl⟩
      · rintro ⟨hn, len, hlen, rfl⟩
        exact ⟨_, len, s, hlen, ⟨rfl, rfl, hn⟩, rfl⟩
  rw [Read.text_eq]
  exact .ofFirst Read.byte_recognises Text.exists_cons hfrom

/-- Every form of a string is read as the string. -/
theorem Text.reads {limit : Int} {s bs : Bytes} (h : Text limit s bs) :
    Reads bs (Read.text limit) s :=
  (text_recognises limit).reads h

/-! ### Scores -/

/-- The length byte that stands for a special score. -/
def specialCode : Score.Special → UInt8
  | .negativeInfinity => 0xFF
  | .positiveInfinity => 0xFE
  | .notANumber => 0xFD

/-- The forms of a score as a text: the text after its length, or the byte of a special score. -/
inductive ScoreText : Bytes → Bytes → Prop where
  | plain {s : Bytes} : s.length < 0xFD → ScoreText s (UInt8.ofNat s.length :: s)
  | special (x : Score.Special) : ScoreText x.text [specialCode x]

theorem ScoreText.reads {s bs : Bytes} (h : ScoreText s bs) : Reads bs Read.scoreText s := by
  cases h with
  | plain h =>
    have hb : (UInt8.ofNat s.length).toNat = s.length :=
      UInt8.toNat_ofNat_of_lt (Nat.lt_trans h (by decide))
    refine .cons ?_
    rw [hb]
    split
    · omega
    · omega
    · omega
    · exact .bytes s
  | special x =>
    cases x with
    | positiveInfinity => exact .cons (.pure _)
    | negativeInfinity => exact .cons (.pure _)
    | notANumber => exact .cons (.pure _)

/-- The form of a score as a binary double. -/
def ScoreBinary (x : Binary64) (bs : Bytes) : Prop :=
  bs.length = 8 ∧ Binary64.ofBytes bs = x

theorem ScoreBinary.reads {x : Binary64} {bs : Bytes} (h : ScoreBinary x bs) :
    Reads bs Read.scoreBinary x.text := by
  obtain ⟨hlen, rfl⟩ := h
  have hr := (Reads.bytes bs).map fun bs => (Binary64.ofBytes bs).text
  rwa [hlen] at hr

end Wire

end RedisDump
