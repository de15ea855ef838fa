import RedisDump.Lzf

/-!
# Sizes of expansions

No token leads beyond the size that is asked for, and an expansion goes on until it is reached. So
what a payload expands to has just that size (`Lzf.length_of_decompressTo`).
-/

namespace RedisDump.Lzf

theorem size_appendCopy (distance length : Nat) (out : Array UInt8) :
    (appendCopy distance length out).size = out.size + length := by
  induction length generalizing out with
  | zero => rfl
  | succ length ih =>
    rw [appendCopy, ih, Array.size_push]
    omega

theorem size_appendRun (run : Bytes) (out : Array UInt8) :
    (run.foldl Array.push out).size = out.size + run.length := by
  induction run generalizing out with
  | nil => rfl
  | cons b run ih =>
    rw [List.foldl_cons, ih, Array.size_push, List.length_cons]
    omega

/-- A token keeps the output within the size. -/
theorem size_of_apply {size : Nat} {out out' : Array UInt8} {t : Token}
    (h : t.apply size out = .ok out') : out'.size ≤ size := by
  cases t with
  | literal run =>
    simp only [Token.apply] at h
    split at h
    · cases h
    · cases h
      rw [size_appendRun]
      omega
  | copy distance length =>
    simp only [Token.apply] at h
    split at h
    · cases h
    · split at h
      · cases h
      · cases h
        rw [size_appendCopy]
        omega

theorem size_of_decompressFrom {size offset : Nat} {src : Bytes} {out out' : Array UInt8}
    (hout : out.size ≤ size) (h : decompressFrom size offset src out = .ok out') :
    out'.size = size := by
  fun_induction decompressFrom size offset src out with
  | case1 offset src out hfull =>
    cases h
    omega
  | case2 => cases h
  | case3 => cases h
  | case4 => cases h
  | case5 offset out _ control src token rest _ out₁ ht ih => exact ih (size_of_apply ht) h

/-- **What a payload expands to has the declared size.** -/
theorem length_of_decompressTo {room : Room} {size : Nat} {src bs : Bytes}
    (h : decompressTo size src room = .ok bs) : bs.length = size := by
  unfold decompressTo at h
  split at h
  · cases h
  split at h
  · cases h
  split at h
  · rw [Int.toNat_natCast, decompress] at h
    cases hd : decompressFrom size 0 src #[] with
    | error e =>
      rw [hd] at h
      cases h
    | ok out =>
      rw [hd] at h
      cases h
      rw [Array.length_toList]
      exact size_of_decompressFrom (Nat.zero_le _) hd
  · cases h

end RedisDump.Lzf
