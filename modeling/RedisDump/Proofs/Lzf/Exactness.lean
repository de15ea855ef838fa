import RedisDump.Proofs.Expansion
import RedisDump.Proofs.Lzf.Tokens

/-!
# Payloads and their tokens

An expansion takes tokens from the start of the payload and carries them out until its output has
the size that is asked for. So it succeeds just on payloads that start with tokens whose output has
this size (`decompress_iff`): a token is applied for what it means as long as the output stays
within the size (`apply_iff`), and tokens never take bytes of the output back, so none is missed on
the way. A size for which there is no room is refused before a token is read
(`decompressTo_of_not_holds`).
-/

namespace RedisDump.Lzf

variable {size offset : Nat} {out out' : Array UInt8} {t : Token}

/-! ### Single tokens -/

theorem toList_appendRun (run : Bytes) (out : Array UInt8) :
    (run.foldl Array.push out).toList = out.toList ++ run := by
  induction run generalizing out with
  | nil => exact (List.append_nil _).symm
  | cons b run ih => rw [List.foldl_cons, ih, Array.toList_push, List.append_assoc]; rfl

theorem toList_appendCopy {distance : Nat} (hpos : 0 < distance) (length : Nat)
    (hd : distance ≤ out.size) :
    (appendCopy distance length out).toList = out.toList ++ cycle distance length out.toList := by
  induction length generalizing out with
  | zero => exact (List.append_nil _).symm
  | succ length ih =>
    have hb : out.getD (out.size - distance) 0 =
        out.toList.getD (out.toList.length - distance) 0 := by
      rw [Array.getD_eq_getD_getElem?, List.getD_eq_getElem?_getD, Array.getElem?_toList,
        Array.length_toList]
    have hd' : distance ≤ (out.push (out.getD (out.size - distance) 0)).size := by
      rw [Array.size_push]
      omega
    rw [appendCopy, ih hd', Array.toList_push, hb, List.append_assoc,
      cycle_succ hpos (by rwa [Array.length_toList]), List.singleton_append]

/-- A token is applied when it stays within the size, and does what it means. -/
theorem apply_iff (ht : t.Legal) :
    t.apply size out = .ok out' ↔ t.Writes out.toList out'.toList ∧ out'.size ≤ size := by
  cases ht with
  | @literal run =>
    simp only [Token.apply]
    constructor
    · intro h
      split at h
      · cases h
      · cases h
        rw [toList_appendRun, size_appendRun]
        exact ⟨.literal _ _, by omega⟩
    · rintro ⟨h, hsize⟩
      generalize hl : out'.toList = after at h
      cases h
      have hout : out' = run.foldl Array.push out :=
        Array.toList_inj.mp (by rw [hl, toList_appendRun])
      rw [hout, size_appendRun] at hsize
      rw [if_neg (by omega), hout]
  | @copy distance length hpos =>
    simp only [Token.apply, Token.writes_copy_iff hpos, Array.length_toList]
    constructor
    · intro h
      split at h
      · cases h
      · rename_i hd
        split at h
        · cases h
        · cases h
          rw [size_appendCopy]
          exact ⟨⟨by omega, toList_appendCopy hpos length (by omega)⟩, by omega⟩
    · rintro ⟨⟨hd, hl⟩, hsize⟩
      have hout : out' = appendCopy distance length out :=
        Array.toList_inj.mp (by rw [hl, toList_appendCopy hpos length hd])
      rw [hout, size_appendCopy] at hsize
      rw [if_neg (by omega), if_neg (by omega), hout]

/-- A token adds to the output. -/
theorem Token.Writes.length_lt {out out' : Bytes} (ht : t.Legal) (h : t.Writes out out') :
    out.length < out'.length := by
  cases h with
  | literal run =>
    cases ht
    rw [List.length_append]
    omega
  | copy =>
    cases ht
    rw [List.length_append]
    omega

theorem Writes.length_le {ts : List Token} {out out' : Bytes} (hts : ∀ t ∈ ts, t.Legal)
    (h : Writes ts out out') : out.length ≤ out'.length := by
  induction h with
  | nil => exact Nat.le_refl _
  | cons ht _ ih =>
    obtain ⟨hlegal, hrest⟩ := List.forall_mem_cons.mp hts
    exact Nat.le_trans (Nat.le_of_lt (ht.length_lt hlegal)) (ih hrest)

/-! ### Payloads -/

theorem decompressFrom_full (h : size ≤ out.size) (offset : Nat) (src : Bytes) :
    decompressFrom size offset src out = .ok out := by
  rw [decompressFrom.eq_def, if_pos h]

theorem decompressFrom_of_token (h : out.size < size) {control : UInt8} {src rest : Bytes}
    (hread : readToken control (offset + 1) src = .ok (t, rest))
    (happly : t.apply size out = .ok out') :
    decompressFrom size offset (control :: src) out =
      decompressFrom size (offset + t.width) rest out' := by
  rw [decompressFrom, if_neg (Nat.not_le_of_lt h)]
  split <;> simp_all

/-- The rest of a payload fills the output when it starts with tokens that do. -/
theorem decompressFrom_iff {src : Bytes} (hout : out.size ≤ size) :
    decompressFrom size offset src out = .ok out' ↔
      ∃ ts rest, (∀ t ∈ ts, t.Legal) ∧ src = encode ts ++ rest ∧
        Writes ts out.toList out'.toList ∧ out'.size = size := by
  constructor
  · intro h
    fun_induction decompressFrom size offset src out with
    | case1 offset src out hfull =>
      cases h
      exact ⟨[], src, List.forall_mem_nil _, rfl, .nil _, Nat.le_antisymm hout hfull⟩
    | case2 => cases h
    | case3 => cases h
    | case4 => cases h
    | case5 offset out _ control src token rest hread mid happly ih =>
      obtain ⟨hlegal, hbytes⟩ := readToken_iff.mp hread
      obtain ⟨hwrites, hmid⟩ := (apply_iff hlegal).mp happly
      obtain ⟨ts, rest', hts, rfl, hw, hsize⟩ := ih hmid h
      refine ⟨token :: ts, rest', List.forall_mem_cons.mpr ⟨hlegal, hts⟩, ?_,
        .cons hwrites hw, hsize⟩
      rw [hbytes, encode_cons, List.append_assoc]
  · rintro ⟨ts, rest, hts, rfl, hw, hsize⟩
    induction ts generalizing offset out with
    | nil =>
      cases Array.toList_inj.mp (writes_nil_iff.mp hw)
      exact decompressFrom_full (Nat.le_of_eq hsize.symm) offset _
    | cons t ts ih =>
      obtain ⟨hlegal, hts⟩ := List.forall_mem_cons.mp hts
      obtain ⟨mid, hwt, hw⟩ := writes_cons_iff.mp hw
      obtain ⟨mid, rfl⟩ : ∃ filled : Array UInt8, filled.toList = mid := ⟨mid.toArray, rfl⟩
      obtain ⟨control, src, hbytes⟩ := t.exists_bytes
      have hless := hwt.length_lt hlegal
      have hmid := hw.length_le hts
      simp only [Array.length_toList] at hless hmid
      have hread : readToken control (offset + 1) (src ++ (encode ts ++ rest)) =
          .ok (t, encode ts ++ rest) :=
        readToken_bytes hlegal _ (by rw [hbytes]; rfl)
      have happly : t.apply size out = .ok mid := (apply_iff hlegal).mpr ⟨hwt, by omega⟩
      rw [encode_cons, List.append_assoc, hbytes, List.cons_append,
        decompressFrom_of_token (by omega) hread happly]
      exact ih (by omega) hts hw

/-- A payload expands to the output of tokens that it starts with. -/
theorem decompress_iff {src bs : Bytes} :
    decompress src size = .ok bs ↔ Opens src bs ∧ bs.length = size := by
  have hiff (filled : Array UInt8) : decompressFrom size 0 src #[] = .ok filled ↔ _ :=
    decompressFrom_iff (Nat.zero_le size)
  constructor
  · intro h
    rw [decompress] at h
    cases hd : decompressFrom size 0 src #[] with
    | error e =>
      rw [hd] at h
      cases h
    | ok filled =>
      rw [hd] at h
      cases h
      obtain ⟨ts, rest, hts, hsrc, hw, hsize⟩ := (hiff filled).mp hd
      exact ⟨⟨ts, rest, hts, hsrc, hw⟩, by rwa [Array.length_toList]⟩
  · rintro ⟨⟨ts, rest, hts, hsrc, hw⟩, hsize⟩
    have hd := (hiff bs.toArray).mpr ⟨ts, rest, hts, hsrc, hw, by rwa [List.size_toArray]⟩
    rw [decompress, hd]
    rfl

/-! ### Sizes -/

variable {room : Room}

/-- A size for which there is no room is refused whatever the payload. -/
theorem decompressTo_of_not_holds (h : ¬ room.Holds size) (payload : Bytes) :
    decompressTo size payload room =
      .error (if (size : Int) < MachineWord.half then .outOfMemory else .tooWide) := by
  have hpos : ¬ (size : Int) < 0 := by omega
  by_cases hhalf : (size : Int) < MachineWord.half
  · have hfits : MachineWord.Fits size := ⟨by unfold MachineWord.half; omega, hhalf⟩
    have hgrants : ¬ room.grants size = true := fun hgrants => h ⟨hfits, hgrants⟩
    simp only [decompressTo, hfits, not_true_eq_false, if_false, hpos, Int.toNat_natCast, hgrants,
      Bool.false_eq_true, hhalf, if_true]
  · have hfits : ¬ MachineWord.Fits size := fun hfits => hhalf hfits.2
    simp only [decompressTo, hfits, not_false_eq_true, if_true, hhalf, if_false]

theorem mapError_eq_ok_iff {ε ε' α : Type} {x : Except ε α} {f : ε → ε'} {a : α} :
    x.mapError f = .ok a ↔ x = .ok a := by
  cases x with
  | error e => exact ⟨nofun, nofun⟩
  | ok b =>
    constructor
    · intro h
      cases h
      rfl
    · intro h
      cases h
      rfl

theorem decompressTo_iff {payload bs : Bytes} :
    decompressTo size payload room = .ok bs ↔
      room.Holds size ∧ Opens payload bs ∧ bs.length = size := by
  by_cases hroom : room.Holds size
  · rw [decompressTo_of_holds hroom, mapError_eq_ok_iff, decompress_iff]
    exact (and_iff_right hroom).symm
  · rw [decompressTo_of_not_holds hroom]
    constructor
    · intro h
      cases h
    · rintro ⟨hholds, -⟩
      exact absurd hholds hroom

/-- With room for its size, an expansion fails only for a flaw in the payload. -/
theorem exists_malformed {payload : Bytes} (hroom : room.Holds size)
    (h : ∀ out, decompressTo size payload room ≠ .ok out) :
    ∃ e, decompressTo size payload room = .error (.malformed e) := by
  rw [decompressTo_of_holds hroom] at h ⊢
  cases hd : decompress payload size with
  | error e => exact ⟨e, rfl⟩
  | ok out =>
    rw [hd] at h
    exact absurd rfl (h out)

end RedisDump.Lzf
