import RedisDump.Lzf

/-!
# Tokens, their bytes and their meaning

The format of payloads without the program that reads it: the tokens that there are
(`Token.Legal`), the bytes in which each is written (`Token.bytes`), and what it does to an output
(`Token.Writes`). The bytes of a token tell which one it is, and where it ends (`readToken_iff`).
-/

namespace RedisDump.Lzf

/-! ### The format -/

/-- The tokens that can be written: runs of 1 to 32 bytes, and copies of 3 to 264 bytes from 1 to
8192 places before the end. -/
inductive Token.Legal : Token → Prop where
  | literal {run : Bytes} : 1 ≤ run.length → run.length ≤ 32 → Legal (.literal run)
  | copy {distance length : Nat} : 1 ≤ distance → distance ≤ 8192 → 3 ≤ length → length ≤ 264 →
    Legal (.copy distance length)

/-- The bytes of a token: a run behind its length less one; a copy of up to 8 bytes in two bytes,
with its length less two in the three top bits and its distance less one in the other thirteen; and
a longer one with all of the top bits set and its length less nine in a byte between. -/
def Token.bytes : Token → Bytes
  | .literal run => UInt8.ofNat (run.length - 1) :: run
  | .copy distance length =>
    let high := (distance - 1) / 256
    let low := UInt8.ofNat ((distance - 1) % 256)
    if length ≤ 8 then [UInt8.ofNat ((length - 2) * 32 + high), low]
    else [UInt8.ofNat (7 * 32 + high), UInt8.ofNat (length - 9), low]

/-- The bytes of tokens one after the other. -/
def encode (ts : List Token) : Bytes :=
  ts.flatMap Token.bytes

/-- Behind `out` each byte of `copied` is the one `distance` places before it, be that in `out` or
in `copied` itself. -/
def Repeats (distance : Nat) (out copied : Bytes) : Prop :=
  ∀ i, i < copied.length →
    (out ++ copied)[out.length + i]? = (out ++ copied)[out.length + i - distance]?

/-- What a token makes of an output: a run is appended, and a copy that starts inside the output is
appended byte by byte. -/
inductive Token.Writes : Token → Bytes → Bytes → Prop where
  | literal (run out : Bytes) : Writes (.literal run) out (out ++ run)
  | copy {distance : Nat} {out copied : Bytes} : distance ≤ out.length →
    Repeats distance out copied → Writes (.copy distance copied.length) out (out ++ copied)

/-- What tokens one after the other make of an output. -/
inductive Writes : List Token → Bytes → Bytes → Prop where
  | nil (out : Bytes) : Writes [] out out
  | cons {t : Token} {ts : List Token} {out mid out' : Bytes} :
    t.Writes out mid → Writes ts mid out' → Writes (t :: ts) out out'

theorem writes_nil_iff {out out' : Bytes} : Writes [] out out' ↔ out' = out := by
  constructor
  · intro h
    cases h
    rfl
  · rintro rfl
    exact .nil _

theorem writes_cons_iff {t : Token} {ts : List Token} {out out' : Bytes} :
    Writes (t :: ts) out out' ↔ ∃ mid, t.Writes out mid ∧ Writes ts mid out' := by
  constructor
  · intro h
    cases h with
    | cons ht hts => exact ⟨_, ht, hts⟩
  · rintro ⟨mid, ht, hts⟩
    exact .cons ht hts

/-- The payload starts with tokens whose output is `out`. -/
def Opens (payload out : Bytes) : Prop :=
  ∃ ts rest, (∀ t ∈ ts, t.Legal) ∧ payload = encode ts ++ rest ∧ Writes ts [] out

/-- A token has as many bytes as reading it takes. -/
theorem Token.length_bytes {t : Token} (h : t.Legal) : t.bytes.length = t.width := by
  cases h with
  | literal => exact Nat.add_comm _ 1
  | @copy distance length =>
    have hnine : longCopy + 2 = 9 := rfl
    simp only [bytes, width, hnine]
    by_cases hshort : length ≤ 8
    · rw [if_pos hshort, if_pos (Nat.lt_succ_of_le hshort)]
      rfl
    · rw [if_neg hshort, if_neg (by omega)]
      rfl

theorem Token.exists_bytes (t : Token) : ∃ b bs, t.bytes = b :: bs := by
  cases t with
  | literal run => exact ⟨_, _, rfl⟩
  | copy distance length =>
    simp only [bytes]
    split
    · exact ⟨_, _, rfl⟩
    · exact ⟨_, _, rfl⟩

theorem encode_cons (t : Token) (ts : List Token) : encode (t :: ts) = t.bytes ++ encode ts :=
  rfl

/-! ### Copies -/

section Copies

variable {distance : Nat} {out : Bytes}

/-- What is copied: the last `distance` bytes over and over again. -/
def cycle (distance length : Nat) (out : Bytes) : Bytes :=
  (List.range length).map fun i => out.getD (out.length - distance + i % distance) 0

@[simp] theorem length_cycle (distance length : Nat) (out : Bytes) :
    (cycle distance length out).length = length := by
  simp [cycle]

theorem getElem?_cycle {length i : Nat} (hpos : 0 < distance) (hd : distance ≤ out.length)
    (hi : i < length) :
    (cycle distance length out)[i]? = out[out.length - distance + i % distance]? := by
  have hmod := Nat.mod_lt i hpos
  rw [cycle, List.getElem?_map, List.getElem?_range hi, Option.map_some,
    List.getD_eq_getElem?_getD, List.getElem?_eq_getElem (by omega), Option.getD_some]

theorem repeats_cycle (hpos : 0 < distance) (hd : distance ≤ out.length) (length : Nat) :
    Repeats distance out (cycle distance length out) := by
  intro i hi
  rw [length_cycle] at hi
  rw [List.getElem?_append_right (Nat.le_add_right ..), Nat.add_sub_cancel_left,
    getElem?_cycle hpos hd hi]
  by_cases hlt : i < distance
  · rw [Nat.mod_eq_of_lt hlt, List.getElem?_append_left (by omega)]
    congr 1
    omega
  · have hback : out.length + i - distance - out.length = i - distance := by omega
    rw [List.getElem?_append_right (by omega), hback, getElem?_cycle hpos hd (by omega),
      ← Nat.mod_eq_sub_mod (Nat.le_of_not_lt hlt)]

/-- What is copied is determined by its length. -/
theorem Repeats.eq_cycle {copied : Bytes} (hpos : 0 < distance) (hd : distance ≤ out.length)
    (h : Repeats distance out copied) : copied = cycle distance copied.length out := by
  have hbyte (i : Nat) : i < copied.length →
      copied[i]? = out[out.length - distance + i % distance]? := by
    induction i using Nat.strongRecOn with
    | _ i ih =>
      intro hi
      have hat := h i hi
      rw [List.getElem?_append_right (Nat.le_add_right ..), Nat.add_sub_cancel_left] at hat
      rw [hat]
      by_cases hlt : i < distance
      · rw [Nat.mod_eq_of_lt hlt, List.getElem?_append_left (by omega)]
        congr 1
        omega
      · have hback : out.length + i - distance - out.length = i - distance := by omega
        rw [List.getElem?_append_right (by omega), hback, ih (i - distance) (by omega) (by omega),
          ← Nat.mod_eq_sub_mod (Nat.le_of_not_lt hlt)]
  refine List.ext_getElem? fun i => ?_
  by_cases hi : i < copied.length
  · rw [hbyte i hi, getElem?_cycle hpos hd hi]
  · rw [List.getElem?_eq_none (Nat.le_of_not_lt hi),
      List.getElem?_eq_none (by rw [length_cycle]; exact Nat.le_of_not_lt hi)]

/-- A copy appends the last `distance` bytes periodically. -/
theorem Token.writes_copy_iff {length : Nat} {out' : Bytes} (hpos : 0 < distance) :
    (copy distance length).Writes out out' ↔
      distance ≤ out.length ∧ out' = out ++ cycle distance length out := by
  constructor
  · intro h
    cases h with
    | copy hd hr => exact ⟨hd, by rw [← hr.eq_cycle hpos hd]⟩
  · rintro ⟨hd, rfl⟩
    have h := Token.Writes.copy hd (repeats_cycle hpos hd length)
    rwa [length_cycle] at h

/-- A byte that is copied, and what is copied behind it. -/
theorem Repeats.cons {b : UInt8} {copied : Bytes} (hpos : 0 < distance) (hd : distance ≤ out.length)
    (hb : out[out.length - distance]? = some b) (h : Repeats distance (out ++ [b]) copied) :
    Repeats distance out (b :: copied) := by
  intro i hi
  cases i with
  | zero =>
    rw [Nat.add_zero, List.getElem?_append_right (Nat.le_refl _), Nat.sub_self,
      List.getElem?_append_left (by omega), hb]
    rfl
  | succ i =>
    have hnext := h i (Nat.lt_of_succ_lt_succ hi)
    have hlength : (out ++ [b]).length + i = out.length + (i + 1) := by
      rw [List.length_append, List.length_singleton]
      omega
    rwa [List.append_assoc, hlength] at hnext

/-- A copy that starts inside the output finds a byte. -/
theorem getElem?_back (hpos : 0 < distance) (hd : distance ≤ out.length) :
    out[out.length - distance]? = some (out.getD (out.length - distance) 0) := by
  rw [List.getD_eq_getElem?_getD, List.getElem?_eq_getElem (by omega), Option.getD_some]

theorem cycle_succ (hpos : 0 < distance) (hd : distance ≤ out.length) (length : Nat) :
    cycle distance (length + 1) out =
      out.getD (out.length - distance) 0 ::
        cycle distance length (out ++ [out.getD (out.length - distance) 0]) := by
  have hd' : distance ≤ (out ++ [out.getD (out.length - distance) 0]).length := by
    rw [List.length_append]
    omega
  have hb := getElem?_back hpos hd
  have hr := (Repeats.cons hpos hd hb (repeats_cycle hpos hd' length)).eq_cycle hpos hd
  rw [List.length_cons, length_cycle] at hr
  exact hr.symm

end Copies

/-! ### The bytes of a token -/

theorem toNat_control {n : Nat} (h : n < 256) : (UInt8.ofNat n).toNat = n :=
  UInt8.toNat_ofNat_of_lt h

theorem copyToken_iff {control field : Nat} {src rest : Bytes} {t : Token} :
    copyToken control field src = .ok (t, rest) ↔
      ∃ b, src = b :: rest ∧ t = .copy (control % 32 * 256 + b.toNat + 1) (field + 2) := by
  cases src with
  | nil => simp [copyToken]
  | cons b src =>
    simp only [copyToken, Except.ok.injEq, Prod.mk.injEq, List.cons.injEq]
    constructor
    · rintro ⟨rfl, rfl⟩
      exact ⟨b, ⟨rfl, rfl⟩, rfl⟩
    · rintro ⟨_, ⟨rfl, rfl⟩, rfl⟩
      exact ⟨rfl, rfl⟩

/-- The low byte of a distance, and the five bits above it. -/
theorem distance_split {distance : Nat} (hpos : 1 ≤ distance) (hd : distance ≤ 8192) :
    (distance - 1) / 256 < 32 ∧
      (distance - 1) / 256 * 256 + (UInt8.ofNat ((distance - 1) % 256)).toNat + 1 = distance := by
  rw [toNat_control (Nat.mod_lt _ (by decide))]
  omega

/-! The control byte says in which of three ways a token is read. -/

theorem readToken_of_run {control : UInt8} (hc : control.toNat < literalLimit) (offset : Nat)
    {src rest : Bytes} {t : Token} :
    readToken control offset src = .ok (t, rest) ↔
      control.toNat + 1 ≤ src.length ∧ t = .literal (src.take (control.toNat + 1)) ∧
        rest = src.drop (control.toNat + 1) := by
  simp only [readToken, if_pos hc, List.length_take]
  constructor
  · intro h
    split at h
    · cases h
    · cases h
      exact ⟨by omega, rfl, rfl⟩
  · rintro ⟨hlen, rfl, rfl⟩
    rw [if_neg (by omega)]

theorem readToken_of_short {control : UInt8} (hc : ¬ control.toNat < literalLimit)
    (hshort : control.toNat / 32 ≠ longCopy) (offset : Nat) (src : Bytes) :
    readToken control offset src = copyToken control.toNat (control.toNat / 32) src := by
  simp only [readToken, if_neg hc, if_neg hshort]

theorem readToken_of_long {control : UInt8} (hlong : control.toNat / 32 = longCopy)
    (offset : Nat) {src rest : Bytes} {t : Token} :
    readToken control offset src = .ok (t, rest) ↔
      ∃ b tail, src = b :: tail ∧
        copyToken control.toNat (longCopy + b.toNat) tail = .ok (t, rest) := by
  have hc : ¬ control.toNat < literalLimit := by
    unfold longCopy at hlong
    unfold literalLimit
    omega
  simp only [readToken, if_neg hc, if_pos hlong]
  cases src with
  | nil => simp
  | cons b tail =>
    constructor
    · intro h
      exact ⟨b, tail, rfl, h⟩
    · rintro ⟨_, _, heq, h⟩
      cases heq
      exact h

/-- A token is read from its bytes, whatever follows them. -/
theorem readToken_bytes {t : Token} (h : t.Legal) (offset : Nat) {control : UInt8}
    {src rest : Bytes} (hsrc : control :: src = t.bytes ++ rest) :
    readToken control offset src = .ok (t, rest) := by
  have hlimit : literalLimit = 32 := rfl
  have hseven : longCopy = 7 := rfl
  cases h with
  | @literal run hpos hle =>
    simp only [Token.bytes, List.cons_append, List.cons.injEq] at hsrc
    obtain ⟨rfl, rfl⟩ := hsrc
    have hc := toNat_control (show run.length - 1 < 256 by omega)
    have hone : (UInt8.ofNat (run.length - 1)).toNat + 1 = run.length := by omega
    refine (readToken_of_run (by omega) offset).mpr ?_
    rw [hone, List.take_left, List.drop_left, List.length_append]
    exact ⟨Nat.le_add_right .., rfl, rfl⟩
  | @copy distance length hpos hd hmin hmax =>
    obtain ⟨hhigh, hdistance⟩ := distance_split hpos hd
    simp only [Token.bytes] at hsrc
    generalize (distance - 1) / 256 = high at hhigh hdistance hsrc
    split at hsrc
    · rename_i hshort
      simp only [List.cons_append, List.nil_append, List.cons.injEq] at hsrc
      obtain ⟨rfl, rfl⟩ := hsrc
      have hc := toNat_control (show (length - 2) * 32 + high < 256 by omega)
      rw [readToken_of_short (by omega) (by omega), hc]
      refine copyToken_iff.mpr ⟨_, rfl, ?_⟩
      rw [show ((length - 2) * 32 + high) % 32 = high by omega, hdistance,
        show ((length - 2) * 32 + high) / 32 + 2 = length by omega]
    · rename_i hlong
      simp only [List.cons_append, List.nil_append, List.cons.injEq] at hsrc
      obtain ⟨rfl, rfl⟩ := hsrc
      have hc := toNat_control (show 7 * 32 + high < 256 by omega)
      have hb := toNat_control (show length - 9 < 256 by omega)
      refine (readToken_of_long (by omega) offset).mpr ⟨_, _, rfl, ?_⟩
      refine copyToken_iff.mpr ⟨_, rfl, ?_⟩
      rw [hc, hb, show (7 * 32 + high) % 32 = high by omega, hdistance,
        show longCopy + (length - 9) + 2 = length by omega]

/-- The distance that a control byte and the byte `low` stand for. -/
theorem distance_join (control : Nat) (low : UInt8) :
    let distance := control % 32 * 256 + low.toNat + 1
    (1 ≤ distance ∧ distance ≤ 8192) ∧ (distance - 1) / 256 = control % 32 ∧
      UInt8.ofNat ((distance - 1) % 256) = low := by
  have hlow := low.toNat_lt
  refine ⟨by omega, by omega, ?_⟩
  rw [show (control % 32 * 256 + low.toNat + 1 - 1) % 256 = low.toNat by omega,
    UInt8.ofNat_toNat]

/-- A token that is read is one that can be written, and has been read from its bytes. -/
theorem of_readToken {t : Token} {control : UInt8} {offset : Nat} {src rest : Bytes}
    (h : readToken control offset src = .ok (t, rest)) :
    t.Legal ∧ control :: src = t.bytes ++ rest := by
  have hcontrol := control.toNat_lt
  have hlimit : literalLimit = 32 := rfl
  have hseven : longCopy = 7 := rfl
  by_cases hrun : control.toNat < literalLimit
  · obtain ⟨hlen, rfl, rfl⟩ := (readToken_of_run hrun offset).mp h
    have htake : (src.take (control.toNat + 1)).length = control.toNat + 1 := by
      rw [List.length_take]
      omega
    refine ⟨.literal (by omega) (by omega), ?_⟩
    rw [Token.bytes, htake, Nat.add_sub_cancel, UInt8.ofNat_toNat, List.cons_append,
      List.take_append_drop]
  · by_cases hlong : control.toNat / 32 = longCopy
    · obtain ⟨b, tail, rfl, hcopy⟩ := (readToken_of_long hlong offset).mp h
      obtain ⟨low, rfl, rfl⟩ := copyToken_iff.mp hcopy
      obtain ⟨⟨hpos, hmax⟩, hhigh, hlow⟩ := distance_join control.toNat low
      have hb := b.toNat_lt
      refine ⟨.copy hpos hmax (by omega) (by omega), ?_⟩
      simp only [Token.bytes, hhigh, hlow]
      rw [if_neg (by omega), show 7 * 32 + control.toNat % 32 = control.toNat by
        omega, show longCopy + b.toNat + 2 - 9 = b.toNat by omega,
        UInt8.ofNat_toNat, UInt8.ofNat_toNat]
      rfl
    · rw [readToken_of_short hrun hlong] at h
      obtain ⟨low, rfl, rfl⟩ := copyToken_iff.mp h
      obtain ⟨⟨hpos, hmax⟩, hhigh, hlow⟩ := distance_join control.toNat low
      refine ⟨.copy hpos hmax (by omega) (by omega), ?_⟩
      simp only [Token.bytes, hhigh, hlow]
      rw [if_pos (by omega), show (control.toNat / 32 + 2 - 2) * 32 + control.toNat % 32 =
        control.toNat by omega, UInt8.ofNat_toNat]
      rfl

/-- **The bytes of a token tell which one it is and where it ends.** -/
theorem readToken_iff {t : Token} {control : UInt8} {offset : Nat} {src rest : Bytes} :
    readToken control offset src = .ok (t, rest) ↔
      t.Legal ∧ control :: src = t.bytes ++ rest :=
  ⟨of_readToken, fun h => readToken_bytes h.1 offset h.2⟩

end RedisDump.Lzf
