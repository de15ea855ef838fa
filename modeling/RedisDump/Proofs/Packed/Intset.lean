import RedisDump.Packed.Intset
import RedisDump.Proofs.Packed.Scanning

/-!
# Intsets by their form

The intsets that are decoded: just those with one of the three widths, a count and so many integers
of this width (`Intset.decode_eq_ok_iff`).
-/

namespace RedisDump.Intset

open Scan

/-- The form of a member of the given width. -/
def MemberForm (width : Nat) (z : Int) (bs : Bytes) : Prop :=
  Bytes.FitsSigned width z ∧ bs = Bytes.signedBytes width z

/-- The intsets with the given members. Behind them anything may follow. -/
inductive Form (zs : List Int) : Bytes → Prop where
  | intro {width : Nat} {bs : Bytes} (rest : Bytes) : width ∈ widths → zs.length < 2 ^ 32 →
    Wire.Sequence (MemberForm width) zs bs →
      Form zs (Bytes.leBytes 4 width ++ (Bytes.leBytes 4 zs.length ++ (bs ++ rest)))

theorem bounds_of_mem_widths {width : Nat} (h : width ∈ widths) : 0 < width ∧ width ≤ 8 := by
  simp only [widths, List.mem_cons, List.not_mem_nil, or_false] at h
  omega

/-- A member is recognised by its form, and gives the decimal text of the integer. -/
theorem member_recognises {width : Nat} (hw : 0 < width) : Recognises (member width) fun s bs =>
    ∃ z, MemberForm width z bs ∧ s = Bytes.decimal z :=
  (Recognises.signed hw).map Bytes.decimal

/-- Members of decimal texts are members of integers. -/
theorem sequence_decimal_iff {width : Nat} {xs : List Bytes} {bs : Bytes} :
    Wire.Sequence (fun s bs => ∃ z, MemberForm width z bs ∧ s = Bytes.decimal z) xs bs ↔
      ∃ zs, Wire.Sequence (MemberForm width) zs bs ∧ xs = zs.map Bytes.decimal := by
  constructor
  · intro h
    induction h with
    | nil => exact ⟨[], .nil, rfl⟩
    | cons ha _ ih =>
      obtain ⟨z, hz, rfl⟩ := ha
      obtain ⟨zs, hzs, rfl⟩ := ih
      exact ⟨z :: zs, .cons hz hzs, rfl⟩
  · rintro ⟨zs, hzs, rfl⟩
    induction hzs with
    | nil => exact .nil
    | cons hz _ ih => exact .cons ⟨_, hz, rfl⟩ ih

/-- **The intsets that are decoded** are just those of the form, and give the decimal texts of its
members. -/
theorem decode_eq_ok_iff {data : Bytes} {xs : List Bytes} :
    decode data = .ok xs ↔ ∃ zs, Form zs data ∧ xs = zs.map Bytes.decimal := by
  rw [decode, Scan.decode_eq_ok_iff]
  constructor
  · rintro ⟨s', hr⟩
    obtain ⟨width, s₁, hwidth, hr⟩ := bind_eq_ok hr
    obtain ⟨_, ⟨-, rfl⟩, hp₁⟩ := (Recognises.littleEndian 4 _ _ _).mp hwidth
    obtain ⟨count, s₂, hcount, hr⟩ := bind_eq_ok hr
    obtain ⟨_, ⟨hlt, rfl⟩, hp₂⟩ := (Recognises.littleEndian 4 _ _ _).mp hcount
    split at hr
    · rename_i hw
      obtain ⟨bs, ⟨rfl, hs⟩, hp₃⟩ :=
        (Recognises.collect (fun _ => member_recognises (bounds_of_mem_widths hw).1) count _ _ _).mp hr
      obtain ⟨zs, hzs, rfl⟩ := sequence_decimal_iff.mp hs
      rw [List.length_map] at hlt hp₂
      refine ⟨zs, ?_, rfl⟩
      rw [show data = Bytes.leBytes 4 width ++ s₁.rest from hp₁.rest, hp₂.rest, hp₃.rest]
      exact .intro _ hw hlt hzs
    · cases hr
  · rintro ⟨zs, ⟨rest, hw, hlt, hzs⟩, rfl⟩
    rename_i width bs
    have hwidth := bounds_of_mem_widths hw
    let tail := bs ++ rest
    let s₁ : Scanner :=
      { container := "intset", offset := 0 + 4, rest := Bytes.leBytes 4 zs.length ++ tail }
    let s₂ : Scanner := { container := "intset", offset := 0 + 4 + 4, rest := tail }
    let s₃ : Scanner := { container := "intset", offset := 0 + 4 + 4 + bs.length, rest := rest }
    have h₁ : littleEndian 4 (Scanner.start "intset" (Bytes.leBytes 4 width ++
        (Bytes.leBytes 4 zs.length ++ tail))) = .ok width s₁ :=
      (Recognises.littleEndian 4 _ _ _).mpr ⟨_, ⟨by omega, rfl⟩, rfl, rfl, rfl⟩
    have h₂ : littleEndian 4 s₁ = .ok zs.length s₂ :=
      (Recognises.littleEndian 4 _ _ _).mpr ⟨_, ⟨hlt, rfl⟩, rfl, rfl, rfl⟩
    have h₃ : collect (fun _ => member width) zs.length s₂ = .ok (zs.map Bytes.decimal) s₃ :=
      (Recognises.collect (fun _ => member_recognises hwidth.1) _ _ _ _).mpr
        ⟨bs, ⟨List.length_map .., sequence_decimal_iff.mpr ⟨zs, hzs, rfl⟩⟩, rfl, rfl, rfl⟩
    refine ⟨s₃, (bind_of_ok h₁).trans ((bind_of_ok h₂).trans ?_)⟩
    rw [if_pos hw]
    exact h₃

end RedisDump.Intset
