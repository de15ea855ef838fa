import RedisDump.Proofs.Pairing
import RedisDump.Proofs.Wire.Number
import RedisDump.Proofs.Recognition

/-!
# Scanners and what they recognise

A computation on a packed container passes over bytes when it moves its place behind them
(`Scanner.Passes`); so it is told what it recognises, and a form that is recognised is recognised in
one way only (`Recognises.unique`). A walk up to the end mark looks one byte ahead, so it is
described together with what follows it (`Scan.untilEnd_eq_ok_iff`).
-/

namespace RedisDump

/-- Between two places of a container lie just the bytes `bs`. -/
structure Scanner.Passes (bs : Bytes) (s s' : Scanner) : Prop where
  container : s'.container = s.container
  offset : s'.offset = s.offset + bs.length
  rest : s.rest = bs ++ s'.rest

namespace Scanner.Passes

theorem nil_iff {s s' : Scanner} : Passes [] s s' ↔ s' = s := by
  constructor
  · rintro ⟨hc, ho, hr⟩
    cases s
    cases s'
    simp_all
  · rintro rfl
    exact ⟨rfl, rfl, rfl⟩

theorem cons_iff {b : UInt8} {rest : Bytes} {container : String} {offset : Nat} {s' : Scanner} :
    Passes [b] ⟨container, offset, rest⟩ s' ↔
      ∃ tail, rest = b :: tail ∧ s' = ⟨container, offset + 1, tail⟩ := by
  constructor
  · rintro ⟨hc, ho, hr⟩
    exact ⟨s'.rest, hr, by cases s'; simp_all⟩
  · rintro ⟨tail, rfl, rfl⟩
    exact ⟨rfl, rfl, rfl⟩

theorem trans {bs cs : Bytes} {s₁ s₂ s₃ : Scanner} (h : Passes bs s₁ s₂) (h' : Passes cs s₂ s₃) :
    Passes (bs ++ cs) s₁ s₃ where
  container := h'.container.trans h.container
  offset := by rw [h'.offset, h.offset, List.length_append, Nat.add_assoc]
  rest := by rw [h.rest, h'.rest, List.append_assoc]

/-- A passage over two parts has a place between them. -/
theorem append_iff {bs cs : Bytes} {s₁ s₃ : Scanner} :
    Passes (bs ++ cs) s₁ s₃ ↔ ∃ s₂, Passes bs s₁ s₂ ∧ Passes cs s₂ s₃ := by
  constructor
  · rintro ⟨hc, ho, hr⟩
    refine ⟨⟨s₁.container, s₁.offset + bs.length, cs ++ s₃.rest⟩, ⟨rfl, rfl, ?_⟩, ⟨hc, ?_, rfl⟩⟩
    · rw [hr, List.append_assoc]
    · rw [ho, List.length_append, Nat.add_assoc]
  · rintro ⟨s₂, h, h'⟩
    exact h.trans h'

end Scanner.Passes

instance : Passage Scanner where
  Passes := Scanner.Passes
  passes_nil_iff := Scanner.Passes.nil_iff
  passes_append_iff := Scanner.Passes.append_iff

section

variable {α : Type}

/-- What is passed by an eager computation is not empty. -/
theorem Recognises.ne_nil {item : Scan α} {form : α → Bytes → Prop} (h : Recognises item form)
    (eager : Eager Scanner.remaining item) {a : α} {bs : Bytes} (ha : form a bs) : bs ≠ [] := by
  rintro rfl
  have hr := (h (Scanner.start "" []) a _).mpr ⟨[], ha, Scanner.Passes.nil_iff.mpr rfl⟩
  exact Nat.lt_irrefl _ (eager _ _ _ hr)

/-- Bytes are recognised in one way only. -/
theorem Recognises.unique {item : Scan α} {form : α → Bytes → Prop} (h : Recognises item form)
    {a b : α} {bs cs ds es : Bytes} (ha : form a bs) (hb : form b cs) (heq : bs ++ ds = cs ++ es) :
    a = b ∧ bs = cs ∧ ds = es := by
  have hpass (bs ds : Bytes) : Scanner.Passes bs (Scanner.start "" (bs ++ ds))
      { container := "", offset := 0 + bs.length, rest := ds } := ⟨rfl, rfl, rfl⟩
  have hr := (h _ _ _).mpr ⟨bs, ha, hpass bs ds⟩
  have hr' := (h _ _ _).mpr ⟨cs, hb, hpass cs es⟩
  rw [heq, hr'] at hr
  simp only [EStateM.Result.ok.injEq, Scanner.mk.injEq, true_and] at hr
  obtain ⟨rfl, -, rfl⟩ := hr
  exact ⟨rfl, List.append_cancel_right heq, rfl⟩

end

namespace Scan

open Scanner (Passes)

variable {α β : Type}

namespace Recognises

theorem fail (flaw : String) : Recognises (fail flaw : Scan α) fun _ _ => False :=
  .never fun _ _ _ => nofun

theorem byte : Recognises byte Wire.Single := by
  rintro ⟨container, offset, rest⟩ b s'
  constructor
  · intro h
    cases rest with
    | nil => cases h
    | cons c rest =>
      cases h
      exact ⟨[_], rfl, Passes.cons_iff.mpr ⟨_, rfl, rfl⟩⟩
  · rintro ⟨_, rfl, hs⟩
    obtain ⟨tail, rfl, rfl⟩ := Passes.cons_iff.mp hs
    rfl

theorem take (n : Nat) : Recognises (take n) fun a bs => a = bs ∧ bs.length = n := by
  intro s a s'
  constructor
  · intro h
    unfold Scan.take at h
    dsimp only at h
    split at h
    · cases h
    · rename_i hn
      rw [List.length_take] at hn
      cases h
      have hlen : (s.rest.take n).length = n := by
        rw [List.length_take]
        omega
      refine ⟨s.rest.take n, ⟨rfl, hlen⟩, rfl, ?_, (List.take_append_drop n s.rest).symm⟩
      rw [hlen]
  · rintro ⟨_, ⟨rfl, rfl⟩, hc, ho, hr⟩
    cases s
    cases s'
    simp_all [Scan.take]

theorem skip (n : Nat) : Recognises (skip n) fun _ bs => bs.length = n := by
  refine ((take n).map fun _ => ()).congr fun _ bs => ?_
  constructor
  · rintro ⟨_, ⟨rfl, h⟩, -⟩
    exact h
  · intro h
    exact ⟨bs, ⟨rfl, h⟩, rfl⟩

theorem littleEndian (width : Nat) : Recognises (littleEndian width) fun n bs =>
    n < 256 ^ width ∧ bs = Bytes.leBytes width n :=
  (take width).leNat

theorem bigEndian (width : Nat) : Recognises (bigEndian width) fun n bs =>
    n < 256 ^ width ∧ bs = Bytes.beBytes width n :=
  (take width).beNat

theorem signed {width : Nat} (hw : 0 < width) : Recognises (signed width) fun z bs =>
    Bytes.FitsSigned width z ∧ bs = Bytes.signedBytes width z :=
  (take width).leInt hw

/-- The first byte decides how to go on. -/
theorem cons {k : UInt8 → Scan β} {next : UInt8 → β → Bytes → Prop}
    (hk : ∀ b, Recognises (k b) (next b)) :
    Recognises (Scan.byte >>= k) fun a bs => ∃ b cs, bs = b :: cs ∧ next b a cs :=
  .bindByte byte hk

/-- A form of at least one byte is recognised by what follows each first byte. -/
theorem first {k : UInt8 → Scan β} {form : β → Bytes → Prop}
    (hne : ∀ {a bs}, form a bs → ∃ b cs, bs = b :: cs)
    (hk : ∀ b, Recognises (k b) fun a cs => form a (b :: cs)) : Recognises (Scan.byte >>= k) form :=
  .ofFirst byte hne hk

end Recognises

/-! ### Walks up to the end mark -/

/-- The end mark is the next byte. -/
def AtEnd (s : Scanner) : Prop :=
  ∃ rest, s.rest = endMark :: rest

/-- A form of bytes that cannot be taken for the end mark. -/
def Unmarked (form : α → Bytes → Prop) (a : α) (bs : Bytes) : Prop :=
  form a bs ∧ bs.head? ≠ some endMark

theorem peek_eq_ok_iff {s s' : Scanner} {b : UInt8} :
    peek s = .ok b s' ↔ s' = s ∧ s.rest.head? = some b := by
  unfold peek
  constructor
  · intro h
    split at h
    · cases h
    · rename_i hs
      cases h
      exact ⟨rfl, by rw [hs]; rfl⟩
  · rintro ⟨rfl, h⟩
    split
    · rename_i hs
      rw [hs] at h
      cases h
    · rename_i hs
      rw [hs] at h
      cases h
      rfl

theorem untilEndInto_of_ok {item : Scan α} {form : α → Bytes → Prop} (h : Recognises item form)
    (eager : Eager Scanner.remaining item) {done as : List α} {s s' : Scanner}
    (hr : untilEndInto item eager done s = .ok as s') :
    ∃ xs bs, as = done.reverse ++ xs ∧ Wire.Sequence (Unmarked form) xs bs ∧ Passes bs s s' ∧
      AtEnd s' := by
  fun_induction untilEndInto item eager done s with
  | case1 => cases hr
  | case2 done s s₁ hp =>
    cases hr
    obtain ⟨-, hhead⟩ := peek_eq_ok_iff.mp hp
    exact ⟨[], [], (List.append_nil _).symm, .nil, Passes.nil_iff.mpr rfl,
      List.head?_eq_some_iff.mp hhead⟩
  | case3 => cases hr
  | case4 done s b s₁ hp hb a s₂ hi ih =>
    obtain ⟨xs, bs, rfl, hs, hpass, hend⟩ := ih hr
    obtain ⟨cs, ha, hpass'⟩ := (h _ _ _).mp hi
    obtain ⟨-, hhead⟩ := peek_eq_ok_iff.mp hp
    have hmark : cs.head? ≠ some endMark := by
      obtain ⟨c, cs, rfl⟩ := List.exists_cons_of_ne_nil (h.ne_nil eager ha)
      rw [hpass'.rest] at hhead
      rw [List.head?_cons, show c = b from Option.some.inj hhead]
      exact fun he => hb (Option.some.inj he)
    refine ⟨a :: xs, cs ++ bs, ?_, .cons ⟨ha, hmark⟩ hs, hpass'.trans hpass, hend⟩
    rw [List.reverse_cons, List.append_assoc, List.singleton_append]

/-- A walk passes over elements that cannot be taken for the end mark, and goes on behind them. -/
theorem untilEndInto_sequence {item : Scan α} {form : α → Bytes → Prop}
    (h : Recognises item form) (eager : Eager Scanner.remaining item) {xs : List α} {bs : Bytes}
    (hs : Wire.Sequence (Unmarked form) xs bs) (done : List α) {s s' : Scanner}
    (hpass : Passes bs s s') :
    untilEndInto item eager done s = untilEndInto item eager (xs.reverse ++ done) s' := by
  induction hs generalizing done s with
  | nil =>
    cases Passes.nil_iff.mp hpass
    rfl
  | @cons a xs cs ds ha _ ih =>
    obtain ⟨s₁, hp₁, hp₂⟩ := Passes.append_iff.mp hpass
    obtain ⟨b, cs', rfl⟩ := List.exists_cons_of_ne_nil (h.ne_nil eager ha.1)
    have hb : b ≠ endMark := fun he => ha.2 (congrArg some he)
    have hp : peek s = .ok b s := peek_eq_ok_iff.mpr ⟨rfl, by rw [hp₁.rest]; rfl⟩
    have hi : item s = .ok a s₁ := (h _ _ _).mpr ⟨_, ha.1, hp₁⟩
    have hrest := ih (a :: done) hp₂
    rw [List.reverse_cons, List.append_assoc, List.singleton_append, ← hrest, untilEndInto, hp]
    simp only [if_neg hb]
    split
    · rename_i he
      rw [hi] at he
      cases he
    · rename_i ho
      rw [hi] at ho
      cases ho
      rfl

theorem untilEndInto_of_sequence {item : Scan α} {form : α → Bytes → Prop}
    (h : Recognises item form) (eager : Eager Scanner.remaining item) {xs : List α} {bs : Bytes}
    (hs : Wire.Sequence (Unmarked form) xs bs) (done : List α) {s s' : Scanner}
    (hpass : Passes bs s s') (hend : AtEnd s') :
    untilEndInto item eager done s = .ok (done.reverse ++ xs) s' := by
  obtain ⟨rest, hrest⟩ := hend
  have hp : peek s' = .ok endMark s' := peek_eq_ok_iff.mpr ⟨rfl, by rw [hrest]; rfl⟩
  rw [untilEndInto_sequence h eager hs done hpass, untilEndInto, hp]
  simp

/-- A walk up to the end mark succeeds just on elements none of which starts with the end mark,
with the end mark behind them. -/
theorem untilEnd_eq_ok_iff {item : Scan α} {form : α → Bytes → Prop} (h : Recognises item form)
    (eager : Eager Scanner.remaining item) {as : List α} {s s' : Scanner} :
    untilEnd item eager s = .ok as s' ↔
      ∃ bs, Wire.Sequence (Unmarked form) as bs ∧ Passes bs s s' ∧ AtEnd s' := by
  constructor
  · intro hr
    obtain ⟨xs, bs, rfl, hs, hpass, hend⟩ := untilEndInto_of_ok h eager hr
    exact ⟨bs, hs, hpass, hend⟩
  · rintro ⟨bs, hs, hpass, hend⟩
    exact untilEndInto_of_sequence h eager hs [] hpass hend

/-- Elements that cannot be taken for the end mark are not passed over by a walk that ends at
one. -/
theorem isPrefix_of_endMark {item : Scan α} {form : α → Bytes → Prop}
    (h : Recognises item form) (eager : Eager Scanner.remaining item) {xs ys : List α}
    {bs cs ds es : Bytes} (hx : Wire.Sequence (Unmarked form) xs bs) (hy : Wire.Sequence form ys cs)
    (heq : bs ++ ds = cs ++ endMark :: es) : ∃ fs, xs <+: ys ∧ cs = bs ++ fs := by
  induction hx generalizing ys cs with
  | nil => exact ⟨cs, List.nil_prefix, rfl⟩
  | @cons a xs bs₁ bs₂ ha _ ih =>
    cases hy with
    | nil =>
      obtain ⟨c, bs₁, rfl⟩ := List.exists_cons_of_ne_nil (h.ne_nil eager ha.1)
      cases heq
      exact absurd rfl ha.2
    | @cons b ys cs₁ cs₂ hb hy =>
      rw [List.append_assoc, List.append_assoc] at heq
      obtain ⟨rfl, rfl, htail⟩ := h.unique ha.1 hb heq
      obtain ⟨fs, hpre, rfl⟩ := ih hy htail
      exact ⟨fs, List.cons_prefix_cons.mpr ⟨rfl, hpre⟩, (List.append_assoc ..).symm⟩

/-! ### Elements behind a count -/

/-- The bytes of a container up to its end: `leading` bytes, a count of two bytes and the elements.
The count is that of the elements or, if their number is not known, `unknown`; then none of them
may be taken for the end mark. -/
inductive ElementsForm (leading unknown : Nat) (form : α → Bytes → Prop) (xs : List α) :
    (known : Bool) → Bytes → Prop where
  | counted {lead bs : Bytes} : lead.length = leading → xs.length < unknown →
    Wire.Sequence form xs bs →
      ElementsForm leading unknown form xs true (lead ++ (Bytes.leBytes 2 xs.length ++ bs))
  | uncounted {lead bs : Bytes} : lead.length = leading → Wire.Sequence (Unmarked form) xs bs →
    ElementsForm leading unknown form xs false (lead ++ (Bytes.leBytes 2 unknown ++ bs))

/-- Elements by their count, or up to the end mark. -/
theorem elements_eq_ok_iff {item : Scan α} {form : α → Bytes → Prop} (h : Recognises item form)
    (eager : Eager Scanner.remaining item) {leading unknown : Nat} (hunknown : unknown = 0xFFFF)
    {xs : List α} {s s' : Scanner} :
    (do
      skip leading
      let count ← littleEndian 2
      if count < unknown then collect (fun _ => item) count else untilEnd item eager :
        Scan (List α)) s = .ok xs s' ↔
      ∃ known bs, ElementsForm leading unknown form xs known bs ∧ Passes bs s s' ∧
        (known = false → AtEnd s') := by
  constructor
  · intro hr
    obtain ⟨_, s₁, hskip, hafter⟩ := bind_eq_ok hr
    obtain ⟨lead, hlead, hp₁⟩ := (Recognises.skip leading _ _ _).mp hskip
    obtain ⟨count, s₂, hcount, hwalk⟩ := bind_eq_ok hafter
    obtain ⟨_, ⟨hlt, rfl⟩, hp₂⟩ := (Recognises.littleEndian 2 _ _ _).mp hcount
    split at hwalk
    · rename_i hknown
      obtain ⟨bs, ⟨rfl, hs⟩, hp₃⟩ := (Recognises.collect (fun _ => h) count _ _ _).mp hwalk
      exact ⟨true, _, .counted hlead hknown hs, hp₁.trans (hp₂.trans hp₃), nofun⟩
    · rename_i hknown
      have hu : count = unknown := by omega
      subst hu
      obtain ⟨bs, hs, hp₃, hend⟩ := (untilEnd_eq_ok_iff h eager).mp hwalk
      exact ⟨false, _, .uncounted hlead hs, hp₁.trans (hp₂.trans hp₃), fun _ => hend⟩
  · rintro ⟨known, bs, hform, hp, hend⟩
    cases hform with
    | @counted lead bs hlead hknown hs =>
      obtain ⟨s₁, hp₁, hp⟩ := Passes.append_iff.mp hp
      obtain ⟨s₂, hp₂, hp₃⟩ := Passes.append_iff.mp hp
      rw [bind_of_ok ((Recognises.skip leading s () s₁).mpr ⟨_, hlead, hp₁⟩),
        bind_of_ok ((Recognises.littleEndian 2 s₁ _ s₂).mpr ⟨_, ⟨by omega, rfl⟩, hp₂⟩),
        if_pos hknown]
      exact (Recognises.collect (fun _ => h) _ _ _ _).mpr ⟨_, ⟨rfl, hs⟩, hp₃⟩
    | @uncounted lead bs hlead hs =>
      obtain ⟨s₁, hp₁, hp⟩ := Passes.append_iff.mp hp
      obtain ⟨s₂, hp₂, hp₃⟩ := Passes.append_iff.mp hp
      rw [bind_of_ok ((Recognises.skip leading s () s₁).mpr ⟨_, hlead, hp₁⟩),
        bind_of_ok ((Recognises.littleEndian 2 s₁ _ s₂).mpr ⟨_, ⟨by omega, rfl⟩, hp₂⟩),
        if_neg (Nat.lt_irrefl _)]
      exact (untilEnd_eq_ok_iff h eager).mpr ⟨_, hs, hp₃, hend rfl⟩

/-- A container is decoded where its computation succeeds. -/
theorem decode_eq_ok_iff {container : String} {r : Scan α} {data : Bytes} {a : α} :
    decode container r data = .ok a ↔ ∃ s, r (Scanner.start container data) = .ok a s := by
  constructor
  · exact decode_eq_ok
  · rintro ⟨s, hr⟩
    rw [decode, hr]

end Scan

end RedisDump
