import RedisDump.Proofs.Outcome.Reading

/-!
# The bytes that start records

The byte at the start of a record is its *lead*: it announces an opcode or a kind of value, and
with that a part of the format that some version first had. A reading of an entry takes one lead
for each mark before the entry and one for the entry itself (`ReadRecord.leads`). A lead is *gated*
when its part is newer than the snapshot.

A strict and a lenient profile differ in nothing but what they make of gated leads. Without one
they read the same entry, and at the first one the strict profile stops, having read the lead and
nothing behind it (`ReadRecord.entry_withStrict`).
-/

namespace RedisDump

/-- A profile that is strict or not, and the same in all else. -/
def Profile.withStrict (p : Profile) (strict : Bool) : Profile :=
  { p with strict := strict }

/-- The part of the format that the byte at the start of a record announces, if it is known and not
refused whatever the version. -/
def VersionedPart.ofByte? (b : UInt8) : Option VersionedPart :=
  match Opcode.ofByte? b with
  | some op => some (.opcode op)
  | none =>
    match ValueCode.ofByte? b with
    | some (.known kind) => some (.value kind)
    | some (.refused _) | none => none

/-- A byte read at the start of a record. -/
structure Lead where
  /-- The byte. -/
  byte : UInt8
  /-- The number of bytes read up to this one, itself included. -/
  position : Nat
  /-- The version of the snapshot. -/
  version : Nat
  deriving DecidableEq, Repr

namespace Lead

/-- The part of the format that a lead announces. -/
def part? (l : Lead) : Option VersionedPart :=
  VersionedPart.ofByte? l.byte

/-- Whether a lead announces a part of the format that is newer than the snapshot. -/
def isGated (l : Lead) : Bool :=
  l.part?.any fun part => decide (l.version < part.since)

theorem isGated_of_part {l : Lead} {part : VersionedPart} (h : l.part? = some part) :
    l.isGated = decide (l.version < part.since) := by
  rw [isGated, h]
  rfl

end Lead

namespace ReadRecord

variable {p : Profile} {version : Nat} {s s' : Intake}

/-- The lead of the record at some place. -/
def lead? (version : Nat) (s : Intake) : Option Lead :=
  match fromInput Read.byte s with
  | .ok b s => some { byte := b, position := s.input.consumed, version }
  | .error _ _ => none

/-- The leads that are read for the entry at some place: those of the marks before it, and its
own. -/
def leads (p : Profile) (version : Nat) (s : Intake) : List Lead :=
  (lead? version s).toList ++
    match _h : record p version s with
    | .ok none s => leads p version s
    | .ok (some _) _ | .error _ _ => []
termination_by s.remaining
decreasing_by exact record_eager _ _ _ _ _ _h

/-- What is read behind a lead. -/
def afterLead (p : Profile) (version : Nat) (b : UInt8) : ReadRecord (Option (Entry Packed)) :=
  match Opcode.ofByte? b with
  | some op => do
    gate p version (.opcode op)
    opcodeBody p version op
  | none => return some (← keyRecord p version b)

/-! ### One record -/

theorem record_of_byte {b : UInt8} (h : fromInput Read.byte s = .ok b s') :
    record p version s = afterLead p version b s' := by
  unfold record
  rw [bind_of_ok h]
  rfl

theorem record_of_no_byte {e : ReadError} (h : fromInput Read.byte s = .error e s') :
    record p version s = .error e s' := by
  unfold record
  rw [bind_of_error h]

theorem gate_of_not_strict (hp : p.strict = false) (version : Nat) (part : VersionedPart) :
    gate p version part = pure () := by
  simp [gate, Profile.refuses, hp]

theorem gate_withStrict (p : Profile) (version : Nat) (part : VersionedPart) :
    gate (p.withStrict true) version part =
      if version < part.since then throw (.format (.tooNew part version)) else pure () := by
  simp [gate, Profile.refuses, Profile.withStrict]

/-- Strictness matters to the gate and to nothing else. -/
theorem opcodeBody_withStrict (p : Profile) (strict : Bool) (version : Nat) (op : Opcode) :
    opcodeBody (p.withStrict strict) version op = opcodeBody p version op := by
  cases op <;> rfl

theorem keyValue_withStrict (p : Profile) (strict : Bool) (version : Nat) (kind : ValueKind) :
    keyValue (p.withStrict strict) version kind = keyValue p version kind := by
  cases kind <;> rfl

/-- A strict profile stops behind a lead exactly when it is gated. -/
theorem afterLead_withStrict (hp : p.strict = false) (b : UInt8) (s : Intake) :
    afterLead (p.withStrict true) version b s =
      match VersionedPart.ofByte? b with
      | none => afterLead p version b s
      | some part =>
        if version < part.since then .error (.format (.tooNew part version)) s
        else afterLead p version b s := by
  unfold afterLead VersionedPart.ofByte?
  cases Opcode.ofByte? b with
  | some op =>
    simp only [gate_of_not_strict hp, gate_withStrict, opcodeBody_withStrict]
    split
    · rfl
    · rfl
  | none =>
    unfold keyRecord
    cases ValueCode.ofByte? b with
    | none => rfl
    | some code => cases code with
      | refused kind => rfl
      | known kind =>
        simp only [gate_of_not_strict hp, gate_withStrict, keyValue_withStrict]
        split
        · rfl
        · rfl

/-- Without a gated lead both profiles read the same record, and at a gated lead the strict one
stops. -/
theorem record_withStrict (hp : p.strict = false) (version : Nat) (s : Intake) :
    match (lead? version s).toList.find? Lead.isGated with
    | none => record (p.withStrict true) version s = record p version s
    | some l => ∃ part s', l.part? = some part ∧ l.version = version ∧
        s'.input.consumed = l.position ∧
        record (p.withStrict true) version s = .error (.format (.tooNew part version)) s' := by
  unfold lead?
  cases hb : fromInput Read.byte s with
  | error e s' =>
    change record _ version s = record p version s
    rw [record_of_no_byte hb, record_of_no_byte hb]
  | ok b s' =>
    rw [record_of_byte hb, record_of_byte hb, afterLead_withStrict hp]
    cases hpart : VersionedPart.ofByte? b with
    | none => simp [Lead.isGated, Lead.part?, hpart]
    | some part =>
      by_cases hv : version < part.since
      · simp [Lead.isGated, Lead.part?, hpart, hv]
      · simp [Lead.isGated, Lead.part?, hpart, hv]

/-! ### The leads of an entry -/

theorem leads_of_none (h : record p version s = .ok none s') :
    leads p version s = (lead? version s).toList ++ leads p version s' := by
  rw [leads]
  split <;> simp_all

theorem leads_of_some {e : Entry Packed} (h : record p version s = .ok (some e) s') :
    leads p version s = (lead? version s).toList := by
  rw [leads]
  split <;> simp_all

theorem leads_of_error {e : ReadError} (h : record p version s = .error e s') :
    leads p version s = (lead? version s).toList := by
  rw [leads]
  split <;> simp_all

/-- **A strict reading of an entry.** Without a gated lead it is the lenient one, and otherwise it
stops right behind the first gated lead. -/
theorem entry_withStrict (hp : p.strict = false) (version : Nat) (s : Intake) :
    match (leads p version s).find? Lead.isGated with
    | none => entry (p.withStrict true) version s = entry p version s
    | some l => ∃ part s', l.part? = some part ∧ l.version = version ∧
        s'.input.consumed = l.position ∧
        entry (p.withStrict true) version s = .error (.format (.tooNew part version)) s' := by
  fun_induction entry p version s with
  | case1 s e s' h =>
    have hr := record_withStrict hp version s
    rw [leads_of_error h]
    split
    · rename_i hl
      rw [hl, h] at hr
      exact entry_of_error hr
    · rename_i l hl
      rw [hl] at hr
      obtain ⟨part, t, hpart, hv, hc, ht⟩ := hr
      exact ⟨part, t, hpart, hv, hc, entry_of_error ht⟩
  | case2 s e s' h =>
    have hr := record_withStrict hp version s
    rw [leads_of_some h]
    split
    · rename_i hl
      rw [hl, h] at hr
      exact entry_of_some hr
    · rename_i l hl
      rw [hl] at hr
      obtain ⟨part, t, hpart, hv, hc, ht⟩ := hr
      exact ⟨part, t, hpart, hv, hc, entry_of_error ht⟩
  | case3 s s' h ih =>
    have hr := record_withStrict hp version s
    rw [leads_of_none h, List.find?_append]
    cases hl : (lead? version s).toList.find? Lead.isGated with
    | none =>
      rw [hl, h] at hr
      rw [Option.none_or, entry_of_none hr]
      exact ih
    | some l =>
      rw [hl] at hr
      obtain ⟨part, t, hpart, hv, hc, ht⟩ := hr
      exact ⟨part, t, hpart, hv, hc, entry_of_error ht⟩

end ReadRecord

/-! ### What leads announce -/

/-- Whether an opcode marks the next key. -/
def Opcode.isMark : Opcode → Bool
  | idle | freq | expireTimeMs | expireTime => true
  | function2 | functionPreGa | moduleAux | aux | resizeDb | selectDb | eof => false

/-- The part of the format that an entry is written with. -/
def Entry.part : Entry Packed → VersionedPart
  | .eof _ => .opcode .eof
  | .selectDb _ => .opcode .selectDb
  | .resizeDb .. => .opcode .resizeDb
  | .aux .. => .opcode .aux
  | .keyValue fields _ => .value fields.kind

/-- The leads that are read for an entry: one for each mark of the next key, and then the one of the
entry's own part. -/
inductive Announces : List Lead → Entry Packed → Prop where
  | entry {l : Lead} {e : Entry Packed} : l.part? = some e.part → Announces [l] e
  | mark {l : Lead} {ls : List Lead} {e : Entry Packed} {op : Opcode} : op.isMark = true →
    l.part? = some (.opcode op) → Announces ls e → Announces (l :: ls) e

namespace ReadRecord

open Read (Rules)

/-- What a record with a lead of some part can be: a mark, or an entry of the part. -/
def Fits (part : VersionedPart) : Option (Entry Packed) → Prop
  | none => ∃ op : Opcode, op.isMark = true ∧ part = .opcode op
  | some e => e.part = part

theorem note_fits {α : Type} {op : Opcode} (hop : op.isMark = true) (r : Read α)
    (f : α → KeyNotes → KeyNotes) :
    Yields Anything (Fits (.opcode op)) Anything p version (note r f) :=
  (yields_fromInput (.anything r)).bind fun a _ => (yields_note (f a)).bind fun _ _ =>
    .pure ⟨op, hop, rfl⟩

theorem standalone_fits {op : Opcode} {r : Read (Entry Packed)}
    (hr : Ensures Anything (fun e => e.part = .opcode op) Anything r) :
    Yields Anything (Fits (.opcode op)) Anything p version (standalone op r) := by
  refine yields_get.bind fun s _ => ?_
  split
  · exact (yields_fromInput hr).map fun e he => he
  · exact yields_throw (.anything _) rfl rfl

/-- Behind an opcode comes what it announces. -/
theorem opcodeBody_fits (p : Profile) (version : Nat) (op : Opcode) :
    Yields Anything (Fits (.opcode op)) Anything p version (opcodeBody p version op) := by
  have hrules := Rules.anything p
  unfold opcodeBody
  cases op with
  | function2 | functionPreGa | moduleAux => exact yields_throw hrules rfl rfl
  | idle | freq | expireTimeMs | expireTime => exact note_fits rfl _ _
  | aux =>
    refine standalone_fits (hrules.aux.returns ?_)
    rintro _ ⟨key, value, rfl⟩
    rfl
  | resizeDb =>
    refine standalone_fits (hrules.resizeDb.returns ?_)
    rintro _ ⟨size, expireSize, rfl⟩
    rfl
  | selectDb =>
    refine standalone_fits (hrules.selectDb.returns ?_)
    rintro _ ⟨id, rfl⟩
    rfl
  | eof =>
    refine standalone_fits ((hrules.eof version).returns ?_)
    rintro _ ⟨c, _, rfl⟩
    rfl

theorem keyValue_fits (p : Profile) (version : Nat) (kind : ValueKind) :
    Yields Anything (fun e => e.part = .value kind) Anything p version
      (keyValue p version kind) :=
  (yields_fromInput (.anything _)).bind fun _ _ => (yields_fromInput (.anything _)).bind fun _ _ =>
    yields_get.bind fun _ _ => (yields_note fun _ => {}).map fun _ _ => rfl

theorem gate_eq_ok {part : VersionedPart} {u : Unit} (h : gate p version part s = .ok u s') :
    p.refuses part version = false ∧ s' = s := by
  unfold gate at h
  split at h
  · cases h
  · rename_i hr
    cases h
    exact ⟨Bool.eq_false_iff.mpr hr, rfl⟩

/-- What is accepted behind a lead has a part of the format, which is not refused, and fits it. -/
theorem afterLead_eq_ok {b : UInt8} {o : Option (Entry Packed)}
    (h : afterLead p version b s = .ok o s') :
    ∃ part, VersionedPart.ofByte? b = some part ∧ p.refuses part version = false ∧
      Fits part o := by
  unfold afterLead at h
  unfold VersionedPart.ofByte?
  cases hop : Opcode.ofByte? b with
  | some op =>
    simp only [hop] at h
    obtain ⟨u, t, hg, hbody⟩ := bind_eq_ok h
    have hend := opcodeBody_fits p version op t trivial
    rw [hbody] at hend
    exact ⟨.opcode op, rfl, (gate_eq_ok hg).1, hend.of_ok.1⟩
  | none =>
    simp only [hop] at h
    obtain ⟨e, t, hk, he⟩ := bind_eq_ok h
    cases he
    unfold keyRecord at hk
    cases hcode : ValueCode.ofByte? b with
    | none =>
      simp only [hcode] at hk
      cases hk
    | some code => cases code with
      | refused kind =>
        simp only [hcode] at hk
        cases hk
      | known kind =>
        simp only [hcode] at hk
        obtain ⟨u, t', hg, hbody⟩ := bind_eq_ok hk
        have hend := keyValue_fits p version kind t' trivial
        rw [hbody] at hend
        exact ⟨.value kind, rfl, (gate_eq_ok hg).1, hend.of_ok.1⟩

theorem record_eq_ok {o : Option (Entry Packed)} (h : record p version s = .ok o s') :
    ∃ l part, lead? version s = some l ∧ l.part? = some part ∧ l.version = version ∧
      p.refuses part version = false ∧ Fits part o := by
  unfold lead?
  cases hb : fromInput Read.byte s with
  | error e t =>
    rw [record_of_no_byte hb] at h
    cases h
  | ok b t =>
    rw [record_of_byte hb] at h
    obtain ⟨part, hpart, hr, hfits⟩ := afterLead_eq_ok h
    exact ⟨_, part, rfl, hpart, rfl, hr, hfits⟩

/-- **The leads of an entry announce it**, and none of them is refused. -/
theorem announces_of_entry {e : Entry Packed} (h : entry p version s = .ok e s') :
    Announces (leads p version s) e ∧ ∀ l ∈ leads p version s, l.version = version ∧
      ∀ part, l.part? = some part → p.refuses part version = false := by
  fun_induction entry p version s with
  | case1 => cases h
  | case2 s e s₁ hr =>
    cases h
    obtain ⟨l, part, hl, hpart, hv, hrefuses, hfits⟩ := record_eq_ok hr
    rw [leads_of_some hr, hl]
    refine ⟨.entry (hpart.trans (congrArg some hfits.symm)), fun l' hmem => ?_⟩
    cases List.mem_singleton.mp hmem
    refine ⟨hv, fun part' hpart' => ?_⟩
    rw [hpart] at hpart'
    cases hpart'
    exact hrefuses
  | case3 s s₁ hr ih =>
    obtain ⟨l, part, hl, hpart, hv, hrefuses, op, hop, rfl⟩ := record_eq_ok hr
    obtain ⟨hann, hrest⟩ := ih h
    rw [leads_of_none hr, hl]
    refine ⟨.mark hop hpart hann, fun l' hmem => ?_⟩
    rcases List.mem_cons.mp hmem with rfl | hmem
    · refine ⟨hv, fun part' hpart' => ?_⟩
      rw [hpart] at hpart'
      cases hpart'
      exact hrefuses
    · exact hrest l' hmem

end ReadRecord

end RedisDump
