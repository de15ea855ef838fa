import RedisDump.Packed.Ziplist
import RedisDump.Proofs.Packed.Scanning

/-!
# Ziplists by their form

The forms in which the entries of a ziplist may stand, and the ziplists that are decoded: just
those with eight bytes in front, a count and so many entries, or the count `0xFFFF` and entries up
to the end mark (`Ziplist.decode_eq_ok_iff`). Behind counted entries anything may follow.
-/

namespace RedisDump.Ziplist

open Scan

/-! ### Forms -/

/-- The forms of the length of the entry before. -/
inductive PreviousForm (cutoff : Int) : Bytes → Prop where
  | short {b : UInt8} : (b.toNat : Int) ≤ cutoff → PreviousForm cutoff [b]
  | long {b : UInt8} {bs : Bytes} : cutoff < b.toNat → bs.length = 4 →
    PreviousForm cutoff (b :: bs)

/-- The encoding bytes of the integers that stand in bytes of their own, with their numbers of
bytes. -/
def integerWidths : List (UInt8 × Nat) :=
  [(0xFE, 1), (0xC0, 2), (0xF0, 3), (0xD0, 4), (0xE0, 8)]

/-- The forms of an integer: as many bytes as the encoding byte says, or none for a number from 0
to 12. -/
inductive IntegerForm : Int → Bytes → Prop where
  | wide {encoding : UInt8} {width : Nat} {z : Int} : (encoding, width) ∈ integerWidths →
    Bytes.FitsSigned width z → IntegerForm z (encoding :: Bytes.signedBytes width z)
  | immediate {n : Nat} : n ≤ 12 → IntegerForm n [UInt8.ofNat (0xF1 + n)]

/-- The forms of an element: a string whose length stands in the low six bits of the first byte, in
the low fourteen bits of two, or in four bytes after the first, or an integer for its decimal
text. -/
inductive ElementForm : Bytes → Bytes → Prop where
  | six {s : Bytes} : s.length < 2 ^ 6 → ElementForm s (UInt8.ofNat s.length :: s)
  | fourteen {s : Bytes} : s.length < 2 ^ 14 → ElementForm s
    (UInt8.ofNat (0x40 + s.length / 256) :: UInt8.ofNat (s.length % 256) :: s)
  | thirtyTwo {s : Bytes} {b : UInt8} : b.toNat / 64 = 2 → s.length < 2 ^ 32 →
    ElementForm s (b :: (Bytes.beBytes 4 s.length ++ s))
  | integer {z : Int} {bs : Bytes} : IntegerForm z bs → ElementForm (Bytes.decimal z) bs

/-- The forms of an entry: the length of the one before, and the element. -/
inductive EntryForm (cutoff : Int) (s : Bytes) : Bytes → Prop where
  | intro {previous bs : Bytes} : PreviousForm cutoff previous → ElementForm s bs →
    EntryForm cutoff s (previous ++ bs)

/-- The ziplists with the elements `xs`. Without a count they have to end at an end mark; behind
counted elements anything may follow. -/
inductive Form (cutoff : Int) (xs : List Bytes) : Bytes → Prop where
  | counted {bs : Bytes} (rest : Bytes) :
    ElementsForm leadingBytes uncounted (EntryForm cutoff) xs true bs → Form cutoff xs (bs ++ rest)
  | uncounted {bs : Bytes} (rest : Bytes) :
    ElementsForm leadingBytes uncounted (EntryForm cutoff) xs false bs →
      Form cutoff xs (bs ++ endMark :: rest)

/-! ### Entries -/

theorem PreviousForm.exists_cons {cutoff : Int} {bs : Bytes} (h : PreviousForm cutoff bs) :
    ∃ b cs, bs = b :: cs := by
  cases h <;> exact ⟨_, _, rfl⟩

theorem previousLength_recognises (cutoff : Int) :
    Recognises (previousLength cutoff) fun _ bs => PreviousForm cutoff bs := by
  have hk : ∀ b : UInt8, Recognises (if cutoff < b.toNat then skip 4 else return ())
      fun _ bs => PreviousForm cutoff (b :: bs) := by
    intro b
    split
    · rename_i hlong
      refine (Recognises.skip 4).congr fun _ bs => ?_
      constructor
      · exact PreviousForm.long hlong
      · intro h
        cases h with
        | short hb => omega
        | long _ h => exact h
    · rename_i hshort
      refine (Recognises.pure ()).congr fun _ bs => ?_
      constructor
      · rintro ⟨-, rfl⟩
        exact .short (by omega)
      · intro h
        cases h with
        | short => exact ⟨rfl, rfl⟩
        | long hb => omega
  exact Recognises.first (fun h => h.exists_cons) hk

theorem integerWidth?_eq_some_iff {encoding : UInt8} {width : Nat} :
    integerWidth? encoding = some width ↔ (encoding, width) ∈ integerWidths := by
  constructor
  · intro h
    have hb : encoding = UInt8.ofNat encoding.toNat := UInt8.ofNat_toNat.symm
    unfold integerWidth? at h
    split at h <;> cases h
    all_goals
      rename_i hn
      rw [hb, hn]
      decide
  · intro h
    simp only [integerWidths, List.mem_cons, List.not_mem_nil, or_false, Prod.mk.injEq] at h
    obtain ⟨rfl, rfl⟩ | ⟨rfl, rfl⟩ | ⟨rfl, rfl⟩ | ⟨rfl, rfl⟩ | ⟨rfl, rfl⟩ := h <;> rfl

theorem immediate?_eq_some_iff {encoding : UInt8} {n : Nat} :
    immediate? encoding = some n ↔ n ≤ 12 ∧ encoding = UInt8.ofNat (0xF1 + n) := by
  unfold immediate?
  simp only [UInt8.le_iff_toNat_le, UInt8.reduceToNat]
  constructor
  · intro h
    split at h
    · cases h
      refine ⟨by omega, ?_⟩
      rw [show 0xF1 + (encoding.toNat % 16 - 1) = encoding.toNat by omega, UInt8.ofNat_toNat]
    · cases h
  · rintro ⟨hn, rfl⟩
    have hb : (UInt8.ofNat (0xF1 + n)).toNat = 0xF1 + n :=
      UInt8.toNat_ofNat_of_lt (show _ < 256 by omega)
    rw [if_pos (by omega), hb]
    congr 1
    omega

theorem width_pos_of_mem {encoding : UInt8} {width : Nat} (h : (encoding, width) ∈ integerWidths) :
    0 < width := by
  simp only [integerWidths, List.mem_cons, List.not_mem_nil, or_false, Prod.mk.injEq] at h
  omega

/-- An encoding byte that announces a width is not one that holds a number itself. -/
theorem integerForm_cons_iff {encoding : UInt8} {z : Int} {bs : Bytes} :
    IntegerForm z (encoding :: bs) ↔
      (∃ width, integerWidth? encoding = some width ∧ Bytes.FitsSigned width z ∧
        bs = Bytes.signedBytes width z) ∨
      ∃ n : Nat, immediate? encoding = some n ∧ z = n ∧ bs = [] := by
  simp only [integerWidth?_eq_some_iff, immediate?_eq_some_iff]
  constructor
  · intro h
    cases h with
    | wide hmem hz => exact .inl ⟨_, hmem, hz, rfl⟩
    | immediate hn => exact .inr ⟨_, ⟨hn, rfl⟩, rfl, rfl⟩
  · rintro (⟨width, hmem, hz, rfl⟩ | ⟨n, ⟨hn, rfl⟩, rfl, rfl⟩)
    · exact .wide hmem hz
    · exact .immediate hn

/-- A width leaves no number for the byte itself. -/
theorem immediate?_of_integerWidth? {encoding : UInt8} {width : Nat}
    (h : integerWidth? encoding = some width) : immediate? encoding = none := by
  rw [integerWidth?_eq_some_iff] at h
  simp only [integerWidths, List.mem_cons, List.not_mem_nil, or_false, Prod.mk.injEq] at h
  obtain ⟨rfl, -⟩ | ⟨rfl, -⟩ | ⟨rfl, -⟩ | ⟨rfl, -⟩ | ⟨rfl, -⟩ := h <;> rfl

theorem integer_recognises (encoding : UInt8) :
    Recognises (integer encoding) fun z bs => IntegerForm z (encoding :: bs) := by
  simp only [integerForm_cons_iff]
  unfold integer
  split
  · rename_i width hw
    have hpos := width_pos_of_mem (integerWidth?_eq_some_iff.mp hw)
    refine (Recognises.signed hpos).congr fun z bs => ?_
    simp [hw, immediate?_of_integerWidth? hw]
  · rename_i hw
    split
    · rename_i n hn
      refine (Recognises.pure (n : Int)).congr fun z bs => ?_
      simp [hw, hn]
    · rename_i hn
      refine (Recognises.fail _).congr fun z bs => ?_
      simp [hw, hn]

/-- The two top bits of an encoding byte are set. -/
theorem IntegerForm.top {encoding : UInt8} {z : Int} {bs : Bytes}
    (h : IntegerForm z (encoding :: bs)) : encoding.toNat / 64 = 3 := by
  cases h with
  | wide hmem =>
    simp only [integerWidths, List.mem_cons, List.not_mem_nil, or_false, Prod.mk.injEq] at hmem
    obtain ⟨rfl, -⟩ | ⟨rfl, -⟩ | ⟨rfl, -⟩ | ⟨rfl, -⟩ | ⟨rfl, -⟩ := hmem <;> rfl
  | @immediate n hn =>
    have hb : (UInt8.ofNat (0xF1 + n)).toNat = 0xF1 + n :=
      UInt8.toNat_ofNat_of_lt (show _ < 256 by omega)
    omega

/-- The two top bits of the first byte tell the form of an element. -/
theorem elementForm_cons_iff {b : UInt8} {s bs : Bytes} :
    ElementForm s (b :: bs) ↔
      (b.toNat / 64 = 0 ∧ s.length = b.toNat ∧ bs = s) ∨
      (b.toNat / 64 = 1 ∧ ∃ c cs, bs = c :: cs ∧ s.length = b.toNat % 64 * 256 + c.toNat ∧ cs = s) ∨
      (b.toNat / 64 = 2 ∧ s.length < 2 ^ 32 ∧ bs = Bytes.beBytes 4 s.length ++ s) ∨
      b.toNat / 64 = 3 ∧ ∃ z, IntegerForm z (b :: bs) ∧ s = Bytes.decimal z := by
  constructor
  · intro h
    cases h with
    | six h =>
      have hb : (UInt8.ofNat s.length).toNat = s.length :=
        UInt8.toNat_ofNat_of_lt (show _ < 256 by omega)
      exact .inl ⟨by omega, hb.symm, rfl⟩
    | fourteen h =>
      have hb : (UInt8.ofNat (0x40 + s.length / 256)).toNat = 0x40 + s.length / 256 :=
        UInt8.toNat_ofNat_of_lt (show _ < 256 by omega)
      have hc : (UInt8.ofNat (s.length % 256)).toNat = s.length % 256 :=
        UInt8.toNat_ofNat_of_lt (Nat.mod_lt _ (by decide))
      exact .inr (.inl ⟨by omega, _, _, rfl, by omega, rfl⟩)
    | thirtyTwo hb h => exact .inr (.inr (.inl ⟨hb, h, rfl⟩))
    | integer h => exact .inr (.inr (.inr ⟨h.top, _, h, rfl⟩))
  · rintro (⟨hb, hs, rfl⟩ | ⟨hb, c, cs, rfl, hs, rfl⟩ | ⟨hb, hs, rfl⟩ | ⟨-, z, hz, rfl⟩)
    · rw [← UInt8.ofNat_toNat (x := b), ← hs]
      exact .six (by omega)
    · have hc : c.toNat < 256 := c.toNat_lt
      have hb' : UInt8.ofNat (0x40 + cs.length / 256) = b := by
        rw [← UInt8.ofNat_toNat (x := b)]
        congr 1
        omega
      have hc' : UInt8.ofNat (cs.length % 256) = c := by
        rw [← UInt8.ofNat_toNat (x := c)]
        congr 1
        omega
      rw [← hb', ← hc']
      exact .fourteen (by omega)
    · exact .thirtyTwo hb hs
    · exact .integer hz

theorem ElementForm.exists_cons {s bs : Bytes} (h : ElementForm s bs) : ∃ b cs, bs = b :: cs := by
  cases h with
  | integer h => cases h <;> exact ⟨_, _, rfl⟩
  | _ => exact ⟨_, _, rfl⟩

theorem element_recognises (b : UInt8) :
    Recognises (element b) fun s bs => ElementForm s (b :: bs) := by
  simp only [elementForm_cons_iff]
  unfold element
  split
  · rename_i hb
    refine (Recognises.take _).congr fun s bs => ?_
    constructor
    · rintro ⟨rfl, h⟩
      exact .inl ⟨hb, h, rfl⟩
    · rintro (⟨-, h, rfl⟩ | ⟨h, -⟩ | ⟨h, -⟩ | ⟨h, -⟩)
      · exact ⟨rfl, h⟩
      all_goals omega
  · rename_i hb
    refine (Recognises.cons fun c => Recognises.take _).congr fun s bs => ?_
    constructor
    · rintro ⟨c, cs, rfl, rfl, h⟩
      exact .inr (.inl ⟨hb, c, _, rfl, h, rfl⟩)
    · rintro (⟨h, -⟩ | ⟨-, c, cs, rfl, h, rfl⟩ | ⟨h, -⟩ | ⟨h, -⟩)
      · omega
      · exact ⟨c, _, rfl, rfl, h⟩
      all_goals omega
  · rename_i hb
    refine ((Recognises.bigEndian 4).bind fun n => Recognises.take n).congr fun s bs => ?_
    constructor
    · rintro ⟨n, _, _, ⟨hn, rfl⟩, ⟨rfl, rfl⟩, rfl⟩
      exact .inr (.inr (.inl ⟨hb, hn, rfl⟩))
    · rintro (⟨h, -⟩ | ⟨h, -⟩ | ⟨-, h, rfl⟩ | ⟨h, -⟩)
      · omega
      · omega
      · exact ⟨_, _, _, ⟨h, rfl⟩, ⟨rfl, rfl⟩, rfl⟩
      · omega
  · rename_i h₀ h₁ h₂
    have hb : b.toNat / 64 = 3 := by
      have hlt := b.toNat_lt
      rw [imp_false] at h₀ h₁ h₂
      omega
    refine ((integer_recognises b).map Bytes.decimal).congr fun s bs => ?_
    constructor
    · rintro ⟨z, h, rfl⟩
      exact .inr (.inr (.inr ⟨hb, z, h, rfl⟩))
    · rintro (⟨h, -⟩ | ⟨h, -⟩ | ⟨h, -⟩ | ⟨-, z, h, rfl⟩)
      · omega
      · omega
      · omega
      · exact ⟨z, h, rfl⟩

/-- An entry is recognised by its form. -/
theorem entry_recognises (cutoff : Int) :
    Recognises (entry cutoff) (EntryForm cutoff) := by
  refine ((previousLength_recognises cutoff).bind fun _ =>
    Recognises.cons element_recognises).congr fun s bs => ?_
  constructor
  · rintro ⟨-, cs, _, hp, ⟨b, ds, rfl, he⟩, rfl⟩
    exact .intro hp he
  · rintro ⟨hp, he⟩
    obtain ⟨b, ds, rfl⟩ := he.exists_cons
    exact ⟨(), _, _, hp, ⟨b, ds, rfl, he⟩, rfl⟩

/-! ### Whole ziplists -/

/-- **The ziplists that are decoded** are just those of the form, and give its elements. -/
theorem decode_eq_ok_iff {cutoff : Int} {data : Bytes} {xs : List Bytes} :
    decode cutoff data = .ok xs ↔ Form cutoff xs data := by
  have hiff (s' : Scanner) : elements cutoff (Scanner.start "ziplist" data) = .ok xs s' ↔
      ∃ known bs, ElementsForm leadingBytes uncounted (EntryForm cutoff) xs known bs ∧
        Scanner.Passes bs (Scanner.start "ziplist" data) s' ∧ (known = false → AtEnd s') :=
    elements_eq_ok_iff (entry_recognises cutoff) (entry_eager cutoff) rfl
  rw [decode, Scan.decode_eq_ok_iff]
  constructor
  · rintro ⟨s', hr⟩
    obtain ⟨known, bs, hform, hp, hend⟩ := (hiff s').mp hr
    rw [show data = bs ++ s'.rest from hp.rest]
    cases known with
    | true => exact .counted _ hform
    | false =>
      obtain ⟨rest, hrest⟩ := hend rfl
      rw [hrest]
      exact .uncounted rest hform
  · intro h
    cases h with
    | counted rest hform =>
      exact ⟨⟨_, _, rest⟩, (hiff _).mpr ⟨true, _, hform, ⟨rfl, rfl, rfl⟩, nofun⟩⟩
    | uncounted rest hform =>
      exact ⟨⟨_, _, endMark :: rest⟩,
        (hiff _).mpr ⟨false, _, hform, ⟨rfl, rfl, rfl⟩, fun _ => ⟨rest, rfl⟩⟩⟩

end RedisDump.Ziplist
