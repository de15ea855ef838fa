import RedisDump.Proofs.Packed.Listpack
import RedisDump.Proofs.Packed.Zipmap
import RedisDump.Proofs.Packed.Ziplist

/-!
# End marks

A listpack, a zipmap, and a ziplist that does not say how many entries it has, give their elements
only when the end mark stands directly behind them; so no list is cut short by a count that is too
small, and one that lacks its end mark is refused (`Packed.endMarked`). A ziplist that says how
many entries it has is believed: what stands behind so many of them is not looked at
(`Ziplist.decode_counted_iff`, `Ziplist.not_endMarked`).
-/

namespace RedisDump

open Scan

variable {α : Type}

/-- A container of `width` bytes of header and elements of a form, which are given as `view` has it:
what is ensured of the end of its list when `walks` holds of the header. -/
structure EndMarked (width : Nat) (walks : Bytes → Prop) (form : α → Bytes → Prop)
    (view : List α → List Bytes) (decode : Bytes → Except PackedError (List Bytes)) : Prop where
  /-- A container without a whole header is refused. -/
  short {data : Bytes} : data.length < width → ∃ e, decode data = .error e
  /-- Directly behind the last element that is given stands the end mark. -/
  behind {header body : Bytes} {xs : List Bytes} : header.length = width → walks header →
    decode (header ++ body) = .ok xs →
      ∃ as bs rest, Wire.Sequence form as bs ∧ xs = view as ∧ body = bs ++ endMark :: rest
  /-- No element that stands in front is left out. -/
  whole {header bs rest : Bytes} {as : List α} {xs : List Bytes} : header.length = width →
    walks header → Wire.Sequence form as bs → decode (header ++ (bs ++ rest)) = .ok xs →
      view as <+: xs
  /-- Elements with nothing behind them are refused. -/
  missing {header bs : Bytes} {as : List α} : header.length = width → walks header →
    Wire.Sequence form as bs → ∃ e, decode (header ++ bs) = .error e

theorem exists_error_of_ne_ok {ε β : Type} {x : Except ε β} (h : ∀ b, x ≠ .ok b) :
    ∃ e, x = .error e := by
  cases x with
  | error e => exact ⟨e, rfl⟩
  | ok b => exact absurd rfl (h b)

/-- That the end mark stands behind every list ensures the rest, as elements are recognised in one
way only. -/
theorem EndMarked.of_behind {item : Scan α} {form : α → Bytes → Prop} {width : Nat}
    {walks : Bytes → Prop} {view : List α → List Bytes}
    {decode : Bytes → Except PackedError (List Bytes)} (h : Recognises item form)
    (eager : Eager Scanner.remaining item) (hview : ∀ as bs, as <+: bs → view as <+: view bs)
    (hshort : ∀ data xs, decode data = .ok xs → width ≤ data.length)
    (hbehind : ∀ header body xs, header.length = width → walks header →
      decode (header ++ body) = .ok xs →
        ∃ as bs rest, Wire.Sequence (Unmarked form) as bs ∧ xs = view as ∧
          body = bs ++ endMark :: rest) :
    EndMarked width walks (Unmarked form) view decode where
  short := by
    intro data hlt
    refine exists_error_of_ne_ok fun xs hx => ?_
    have hle := hshort data xs hx
    omega
  behind := hbehind _ _ _
  whole := by
    intro header bs rest as xs hwidth hwalks hs hx
    obtain ⟨as', bs', rest', hs', rfl, heq⟩ := hbehind _ _ _ hwidth hwalks hx
    obtain ⟨-, hpre, -⟩ := isPrefix_of_endMark h eager hs (hs'.mono fun _ _ h => h.1) heq
    exact hview _ _ hpre
  missing := by
    intro header bs as hwidth hwalks hs
    refine exists_error_of_ne_ok fun xs hx => ?_
    obtain ⟨as', bs', rest', hs', rfl, rfl⟩ := hbehind _ _ _ hwidth hwalks hx
    obtain ⟨fs, -, hfs⟩ := isPrefix_of_endMark h eager hs (hs'.mono fun _ _ h => h.1)
      (List.append_nil _)
    have hlen := congrArg List.length hfs
    simp only [List.length_append, List.length_cons] at hlen
    omega

/-- The elements behind a header whose count is theirs, or `0xFFFF`. -/
theorem Scan.ElementsForm.of_append {leading unknown : Nat} {form : α → Bytes → Prop}
    {xs : List α} {known : Bool} {bs header body tail : Bytes} (hunknown : unknown = 0xFFFF)
    (h : ElementsForm leading unknown form xs known bs) (hheader : header.length = leading + 2)
    (heq : header ++ body = bs ++ tail) :
    ∃ cs, Wire.Sequence form xs cs ∧ body = cs ++ tail ∧
      (known = true ∧ Bytes.leNat (header.drop leading) = xs.length ∧ xs.length < unknown ∨
        known = false ∧ Bytes.leNat (header.drop leading) = unknown ∧
          Wire.Sequence (Unmarked form) xs cs) := by
  have hsplit {lead cs : Bytes} {n : Nat} (hlead : lead.length = leading)
      (hn : header ++ body = lead ++ (Bytes.leBytes 2 n ++ cs) ++ tail) :
      header = lead ++ Bytes.leBytes 2 n ∧ body = cs ++ tail := by
    rw [← List.append_assoc, List.append_assoc] at hn
    refine List.append_inj hn ?_
    rw [hheader, List.length_append, Bytes.length_leBytes, hlead]
  cases h with
  | @counted lead cs hlead hlt hs =>
    obtain ⟨rfl, hbody⟩ := hsplit hlead heq
    rw [List.drop_left' hlead, Bytes.leNat_leBytes (by omega)]
    exact ⟨cs, hs, hbody, .inl ⟨rfl, rfl, hlt⟩⟩
  | @uncounted lead cs hlead hs =>
    obtain ⟨rfl, hbody⟩ := hsplit hlead heq
    rw [List.drop_left' hlead, Bytes.leNat_leBytes (by omega)]
    exact ⟨cs, hs.mono fun _ _ h => h.1, hbody, .inr ⟨rfl, rfl, hs⟩⟩

theorem Scan.ElementsForm.length_le {leading unknown : Nat} {form : α → Bytes → Prop}
    {xs : List α} {known : Bool} {bs : Bytes} (h : ElementsForm leading unknown form xs known bs) :
    leading + 2 ≤ bs.length := by
  cases h with
  | counted hlead =>
    simp only [List.length_append, Bytes.length_leBytes]
    omega
  | uncounted hlead =>
    simp only [List.length_append, Bytes.length_leBytes]
    omega

/-! ### Listpacks -/

namespace Listpack

/-- No element can be taken for the end mark, which is the first byte of none. -/
theorem ElementForm.unmarked {s bs : Bytes} (h : ElementForm s bs) : Unmarked ElementForm s bs := by
  refine ⟨h, ?_⟩
  obtain ⟨hbody, -⟩ := h
  obtain ⟨b, cs, rfl⟩ := hbody.exists_cons
  rintro hb
  cases Option.some.inj hb
  have hmark : endMark.toNat = 0xFF := rfl
  obtain ⟨h, -⟩ | ⟨h, -⟩ | ⟨h, -⟩ | ⟨h, -⟩ | ⟨h, -⟩ | ⟨-, width, z, h, -⟩ :=
    bodyForm_cons_iff.mp hbody
  · omega
  · omega
  · omega
  · omega
  · omega
  · cases h

theorem decode_endMarked :
    EndMarked (leadingBytes + 2) (fun _ => True) (Unmarked ElementForm) id decode := by
  refine .of_behind element_recognises element_eager (fun _ _ h => h) ?_ ?_
  · intro data xs h
    obtain ⟨rest, hform⟩ := decode_eq_ok_iff.mp h
    have hle := hform.length_le
    rw [List.length_append]
    omega
  · intro header body xs hheader _ h
    generalize hdata : header ++ body = data at h
    obtain ⟨rest, hform⟩ := decode_eq_ok_iff.mp h
    obtain ⟨cs, hs, hbody, -⟩ := hform.of_append rfl hheader hdata
    exact ⟨xs, cs, rest, hs.mono fun _ _ h => h.unmarked, rfl, hbody⟩

/-- A count that is smaller than the number of elements in front of the end mark is refused. -/
theorem error_of_count_lt {header bs rest : Bytes} {xs : List Bytes}
    (hheader : header.length = leadingBytes + 2) (hs : Wire.Sequence ElementForm xs bs)
    (hcount : Bytes.leNat (header.drop leadingBytes) < uncounted)
    (hlt : Bytes.leNat (header.drop leadingBytes) < xs.length) :
    ∃ e, decode (header ++ (bs ++ rest)) = .error e := by
  refine exists_error_of_ne_ok fun ys hy => ?_
  have hpre : xs <+: ys :=
    decode_endMarked.whole hheader trivial (hs.mono fun _ _ h => h.unmarked) hy
  have hstored : storedCount? leadingBytes uncounted (header ++ (bs ++ rest)) =
      some (Bytes.leNat (header.drop leadingBytes)) := by
    have htake : ((header ++ (bs ++ rest)).drop leadingBytes).take 2 =
        header.drop leadingBytes := by
      rw [List.drop_append_of_le_length (by omega), List.take_left']
      rw [List.length_drop]
      omega
    rw [storedCount?, htake, if_pos hcount]
  have hlen := length_of_decode hstored hy
  have hle := hpre.length_le
  omega

end Listpack

/-! ### Zipmaps -/

namespace Zipmap

theorem decode_endMarked :
    EndMarked 1 (fun _ => True) (Unmarked PairForm) Bytes.flattenPairs decode := by
  refine .of_behind pair_recognises pair_eager ?_ ?_ ?_
  · rintro ps _ ⟨qs, rfl⟩
    exact ⟨Bytes.flattenPairs qs, List.flatMap_append.symm⟩
  · intro data xs h
    obtain ⟨ps, ⟨count, rest, -⟩, -⟩ := decode_eq_ok_iff.mp h
    exact Nat.le_add_left 1 _
  · intro header body xs hheader _ h
    generalize hdata : header ++ body = data at h
    obtain ⟨ps, ⟨count, rest, hs⟩, rfl⟩ := decode_eq_ok_iff.mp h
    obtain ⟨b, rfl⟩ := List.length_eq_one_iff.mp hheader
    cases hdata
    exact ⟨ps, _, rest, hs.mono fun _ _ h => h.unmarked, rfl, rfl⟩

end Zipmap

/-! ### Ziplists -/

namespace Ziplist

/-- The header of a ziplist that does not say how many entries it has. -/
def SaysNoCount (header : Bytes) : Prop :=
  Bytes.leNat (header.drop leadingBytes) = uncounted

theorem decode_endMarked (cutoff : Int) :
    EndMarked (leadingBytes + 2) SaysNoCount (Unmarked (EntryForm cutoff)) id (decode cutoff) := by
  refine .of_behind (entry_recognises cutoff) (entry_eager cutoff) (fun _ _ h => h) ?_ ?_
  · intro data xs h
    cases decode_eq_ok_iff.mp h with
    | counted rest hform =>
      have hle := hform.length_le
      rw [List.length_append]
      omega
    | uncounted rest hform =>
      have hle := hform.length_le
      rw [List.length_append]
      omega
  · intro header body xs hheader hwalks h
    generalize hdata : header ++ body = data at h
    cases decode_eq_ok_iff.mp h with
    | counted rest hform =>
      obtain ⟨cs, -, -, ⟨-, hcount, hlt⟩ | ⟨h, -⟩⟩ := hform.of_append rfl hheader hdata
      · exact absurd (hcount.symm.trans hwalks) (Nat.ne_of_lt hlt)
      · cases h
    | uncounted rest hform =>
      obtain ⟨cs, -, hbody, ⟨h, -⟩ | ⟨-, -, hs⟩⟩ := hform.of_append rfl hheader hdata
      · cases h
      · exact ⟨xs, cs, rest, hs, rfl, hbody⟩

/-- A ziplist that says how many entries it has is given with as many, whatever follows them. -/
theorem decode_counted_iff {cutoff : Int} {header body : Bytes} {xs : List Bytes}
    (hheader : header.length = leadingBytes + 2)
    (hcount : Bytes.leNat (header.drop leadingBytes) < uncounted) :
    decode cutoff (header ++ body) = .ok xs ↔
      xs.length = Bytes.leNat (header.drop leadingBytes) ∧
        ∃ bs rest, Wire.Sequence (EntryForm cutoff) xs bs ∧ body = bs ++ rest := by
  constructor
  · intro h
    generalize hdata : header ++ body = data at h
    cases decode_eq_ok_iff.mp h with
    | counted rest hform =>
      obtain ⟨cs, hs, hbody, ⟨-, hn, -⟩ | ⟨h, -⟩⟩ := hform.of_append rfl hheader hdata
      · exact ⟨hn.symm, cs, rest, hs, hbody⟩
      · cases h
    | uncounted rest hform =>
      obtain ⟨cs, -, -, ⟨h, -⟩ | ⟨-, hn, -⟩⟩ := hform.of_append rfl hheader hdata
      · cases h
      · exact absurd hn (Nat.ne_of_lt hcount)
  · rintro ⟨hlen, bs, rest, hs, rfl⟩
    have hlead : (header.take leadingBytes).length = leadingBytes := by
      rw [List.length_take]
      omega
    have hstored : Bytes.leBytes 2 xs.length = header.drop leadingBytes := by
      have hwidth : (header.drop leadingBytes).length = 2 := by
        rw [List.length_drop]
        omega
      rw [hlen, ← hwidth, Bytes.leBytes_leNat]
    have hform : Form cutoff xs
        (header.take leadingBytes ++ (Bytes.leBytes 2 xs.length ++ bs) ++ rest) :=
      .counted rest (.counted hlead (by omega) hs)
    rw [hstored, ← List.append_assoc, List.take_append_drop, List.append_assoc] at hform
    exact decode_eq_ok_iff.mpr hform

/-- A ziplist of the elements `a` and `b` that says that it has one. -/
def shortCounted : Bytes :=
  [0, 0, 0, 0, 0, 0, 0, 0, 1, 0, 0, 1, 0x61, 0, 1, 0x62, 0xFF]

/-- A ziplist that says how many entries it has is not walked to its end mark: elements behind so
many are left out, and no end mark stands behind those that are given. -/
theorem not_endMarked : ¬ ∀ (cutoff : Int) (header body : Bytes) (xs : List Bytes),
    header.length = leadingBytes + 2 → decode cutoff (header ++ body) = .ok xs →
      ∃ bs rest, Wire.Sequence (EntryForm cutoff) xs bs ∧ body = bs ++ endMark :: rest := by
  intro h
  have hone : EntryForm defaultCutoff [0x61] [0, 1, 0x61] :=
    @EntryForm.intro _ _ [0] [1, 0x61] (.short (by decide)) (.six (by decide))
  obtain ⟨bs, rest, hs, hbody⟩ := h defaultCutoff (shortCounted.take 10) (shortCounted.drop 10)
    [[0x61]] rfl rfl
  obtain - | @⟨_, _, cs, ds, hcs, hds⟩ := hs
  cases hds
  rw [List.append_assoc] at hbody
  have heq : [0, 1, 0x61] ++ [0, 1, 0x62, 0xFF] = cs ++ ([] ++ endMark :: rest) := hbody
  obtain ⟨-, -, hrest⟩ := (entry_recognises defaultCutoff).unique hone hcs heq
  cases hrest

end Ziplist

/-! ### Lists up to the end mark -/

namespace Packed

/-- **Where no element is left out in front of an end mark.** A listpack, a zipmap, and a ziplist
that does not say how many entries it has, are given with the end mark directly behind their last
element, and refused when there is none; a listpack is refused as well when it counts fewer
elements than it has. A ziplist that says how many entries it has is given with just so many,
whatever follows them, be it the end mark or not. -/
theorem endMarked (cutoff : Int) :
    (EndMarked (Listpack.leadingBytes + 2) (fun _ => True) (Unmarked Listpack.ElementForm) id
        Listpack.decode ∧
      ∀ (header bs rest : Bytes) (xs : List Bytes), header.length = Listpack.leadingBytes + 2 →
        Wire.Sequence Listpack.ElementForm xs bs →
          Bytes.leNat (header.drop Listpack.leadingBytes) < Listpack.uncounted →
            Bytes.leNat (header.drop Listpack.leadingBytes) < xs.length →
              ∃ e, Listpack.decode (header ++ (bs ++ rest)) = .error e) ∧
      EndMarked 1 (fun _ => True) (Unmarked Zipmap.PairForm) Bytes.flattenPairs Zipmap.decode ∧
      EndMarked (Ziplist.leadingBytes + 2) Ziplist.SaysNoCount
        (Unmarked (Ziplist.EntryForm cutoff)) id (Ziplist.decode cutoff) ∧
      ∀ (header body : Bytes) (xs : List Bytes), header.length = Ziplist.leadingBytes + 2 →
        Bytes.leNat (header.drop Ziplist.leadingBytes) < Ziplist.uncounted →
          (Ziplist.decode cutoff (header ++ body) = .ok xs ↔
            xs.length = Bytes.leNat (header.drop Ziplist.leadingBytes) ∧
              ∃ bs rest, Wire.Sequence (Ziplist.EntryForm cutoff) xs bs ∧ body = bs ++ rest) := by
  refine ⟨⟨Listpack.decode_endMarked, ?_⟩, Zipmap.decode_endMarked,
    Ziplist.decode_endMarked cutoff, ?_⟩
  · intro header bs rest xs hheader hs hcount hlt
    exact Listpack.error_of_count_lt hheader hs hcount hlt
  · intro header body xs hheader hcount
    exact Ziplist.decode_counted_iff hheader hcount

/-- A listpack of the elements `a` and `b` that says that it has one. -/
def shortCountedListpack : Bytes :=
  [0, 0, 0, 0, 1, 0, 0x81, 0x61, 2, 0x81, 0x62, 2, 0xFF]

/-- It is refused; one without the second element is given, with the end mark behind the first. -/
theorem endMarked_shortCounted :
    (∃ e, Listpack.decode shortCountedListpack = .error e) ∧
      Listpack.decode [0, 0, 0, 0, 1, 0, 0x81, 0x61, 2, 0xFF] = .ok [[0x61]] ∧
      ∃ bs rest, Wire.Sequence (Unmarked Listpack.ElementForm) [[0x61]] bs ∧
        [0x81, 0x61, 2, 0xFF] = bs ++ endMark :: rest := by
  have ha : Listpack.ElementForm [0x61] ([0x81, 0x61] ++ [2]) :=
    .intro (.six (by decide)) rfl
  have hb : Listpack.ElementForm [0x62] ([0x81, 0x62] ++ [2]) :=
    .intro (.six (by decide)) rfl
  have hone : Listpack.decode [0, 0, 0, 0, 1, 0, 0x81, 0x61, 2, 0xFF] = .ok [[0x61]] := rfl
  refine ⟨?_, hone, ?_⟩
  · exact (endMarked Ziplist.defaultCutoff).1.2 [0, 0, 0, 0, 1, 0] _ [0xFF] _ rfl
      (.cons ha (.cons hb .nil)) (by decide) (by decide)
  · have hheader : [0, 0, 0, 0, 1, (0 : UInt8)].length = Listpack.leadingBytes + 2 := rfl
    obtain ⟨as, bs, rest, hs, rfl, heq⟩ :=
      (endMarked Ziplist.defaultCutoff).1.1.behind hheader trivial hone
    exact ⟨bs, rest, hs, heq⟩

end Packed

end RedisDump
