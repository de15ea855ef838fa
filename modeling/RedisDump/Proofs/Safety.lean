import RedisDump.Proofs.Expansion
import RedisDump.Proofs.Finality
import RedisDump.Proofs.Outcome.Containers
import RedisDump.Proofs.Outcome.Sessions
import RedisDump.Proofs.Wire.Excess

/-!
# Only faults of the snapshot

Out of memory a session fails only for faults of the snapshot, whatever the bytes are and whatever
is done with it, as long as memory answers requests of the buffer's size, no string may be longer
than there is room for, and the limits are not too long for the refusals that name them. What it
delivers passes the checks of its own fields, and a key whose elements cannot be decoded has a flaw
in its bytes (`safe_run`). No other branch of a reader is reached: no request for fewer than no
bytes, no expansion to a size for which there is no room or which is negative, and no check against
a version before one is accepted.

The range facts that this needs come from the readers, with whose ends `Read.Rules` deals. The
tables of the format agree with each other on their own (`tablesAgree`), and a copy in an expansion
starts inside the output (`Lzf.copiesInside`).
-/

namespace RedisDump

/-! ### The fields of entries -/

/-- A loose field that is an integer, if there is one. -/
def Loose.ofInt? {δ : Type} : Option Int → Loose δ
  | none => .null
  | some n => .integer n

/-- The loose fields of an entry. -/
def Entry.draft {δ : Type} : Entry δ → Draft δ
  | eof checksum => .eof (.bytes checksum)
  | selectDb id => .selectDb (.integer id)
  | resizeDb size expireSize => .resizeDb (.integer size) (.integer expireSize)
  | aux key value => .aux (.bytes key) (.bytes value)
  | keyValue fields values =>
    .keyValue (.bytes fields.key) (.text fields.kind.label) (.list values)
      (.ofInt? fields.expireTimeMs?) (.ofInt? fields.idleSeconds?)
      (.ofInt? (fields.freq?.map fun b => Int.ofNat b.toNat))

namespace Loose

variable {δ : Type}

theorem asChecksum_bytes {c : Bytes} (h : c.length = checksumWidth) :
    (bytes c : Loose δ).asChecksum = .ok c := by
  have hs : ¬ c.length < checksumWidth := by omega
  have hl : ¬ checksumWidth < c.length := by omega
  change (if c.length < checksumWidth then throw .tooShort else
    if checksumWidth < c.length then throw .tooLong else pure c : Except Complaint Bytes) = _
  rw [if_neg hs, if_neg hl]
  rfl

theorem asKind_label (kind : ValueKind) : (text kind.label : Loose δ).asKind = .ok kind := by
  have h : ValueKind.ofLabel? kind.label = some kind := by cases kind <;> decide
  simp only [asKind, h]

theorem asInt?_ofInt? (n : Option Int) : (ofInt? n : Loose δ).asInt? = .ok n := by
  cases n <;> rfl

theorem asByte?_ofInt? (b : Option UInt8) :
    (ofInt? (b.map fun b => Int.ofNat b.toNat) : Loose δ).asByte? = .ok b := by
  cases b with
  | none => rfl
  | some b =>
    have hb := b.toNat_lt
    have hneg : ¬ Int.ofNat b.toNat < 0 := by simp
    have hmax : ¬ 255 < Int.ofNat b.toNat := by simp only [Int.ofNat_eq_natCast]; omega
    simp only [Option.map_some, ofInt?, asByte?, if_neg hneg, if_neg hmax]
    simp

end Loose

namespace Entry

/-- A key passes the checks of its fields. -/
theorem check_draft_keyValue {δ : Type} (fields : KeyFields) (values : Deferred δ) :
    (keyValue fields values).draft.check = .ok (keyValue fields values) := by
  simp only [draft, Draft.check, Loose.asKind_label, Loose.asInt?_ofInt?, Loose.asByte?_ofInt?]
  rfl

/-- What is read passes the checks of its fields. -/
theorem AsRead.check {p : Profile} {version : Nat} {e : Entry Packed} (h : AsRead p version e) :
    e.draft.check = .ok e := by
  cases h with
  | eof hc =>
    simp only [draft, Draft.check, Loose.asChecksum_bytes hc]
    rfl
  | selectDb | resizeDb | aux => rfl
  | keyValue => exact check_draft_keyValue _ _

theorem Genuine.check {p : Profile} {e : Entry Packed} (h : Genuine p e) :
    e.draft.check = .ok e := by
  obtain ⟨version, e₀, -, -, hread, hr⟩ := h
  cases hr with
  | refl => exact hread.check
  | keyValue => exact check_draft_keyValue _ _

/-! ### The elements of keys -/

/-- The elements of a value are known, or can be decoded, or there is a flaw in the bytes that
were captured. -/
def Readable (values : Deferred Packed) : Prop :=
  (∃ xs, values.force.1 = .ok xs) ∨
    ∃ packed e, values.captured? = some packed ∧ values.force.1 = .error e ∧ packed.Flawed e

theorem readable_of_capture {values : Deferred Packed} {packed : Packed}
    (h : values.SameAnswer (.capture packed)) : Readable values := by
  obtain ⟨hc, hf⟩ := h.of_capture
  cases hd : packed.decode with
  | ok xs => exact .inl ⟨xs, hf.trans hd⟩
  | error e => exact .inr ⟨packed, e, hc, hf.trans hd, Packed.flawed_of_decode hd⟩

/-- What goes on to resemble the content of a key can be read. -/
theorem readable_of_content {values : Deferred Packed} {cutoff : Int} {c : Content}
    (h : values.SameAnswer (c.values cutoff)) : Readable values := by
  cases c with
  | string | list | set | sortedSet | sortedSet2 | hash => exact .inl ⟨_, h.answer⟩
  | container | quicklist | quicklist2 => exact readable_of_capture h

theorem Genuine.readable {p : Profile} {e : Entry Packed} {values : Deferred Packed}
    (h : Genuine p e) (hv : e.values? = some values) : Readable values := by
  obtain ⟨version, e₀, -, -, hread, hr⟩ := h
  cases hread with
  | keyValue c =>
    cases hr with
    | refl =>
      cases hv
      exact readable_of_content (.refl _)
    | keyValue hs =>
      cases hv
      exact readable_of_content hs
  | eof | selectDb | resizeDb | aux =>
    cases hr
    cases hv

end Entry

/-! ### Tables -/

/-- The tables of the format agree: every part of it came with a known version, no byte announces
both an opcode and a value, and every kind of value that is not refused is found by its byte and
has a reader, which reads some value of the kind. -/
structure TablesAgree : Prop where
  since : ∀ part : VersionedPart, oldestVersion ≤ part.since ∧ part.since ≤ newestVersion
  opcode : ∀ op : Opcode, Opcode.ofByte? op.code = some op ∧ ValueCode.ofByte? op.code = none
  value : ∀ kind : ValueKind, ValueCode.ofByte? kind.code = some (.known kind) ∧
    Opcode.ofByte? kind.code = none ∧ ∃ c : Content, c.kind = kind ∧ Wire.Value .standard c [0]
  refused : ∀ kind : RefusedKind, ValueCode.ofByte? kind.code = some (.refused kind) ∧
    Opcode.ofByte? kind.code = none

theorem counted_nil {α : Type} {form : α → Bytes → Prop} {limit : Int} (h : 0 ≤ limit) :
    Wire.Counted limit form [] [0] :=
  @Wire.Counted.intro α limit form [] [0] [] h (.six (Nat.two_pow_pos 6)) .nil

/-- A single zero is a value of every kind: an empty string, sequence or container. -/
theorem exists_content (kind : ValueKind) :
    ∃ c : Content, c.kind = kind ∧ Wire.Value .standard c [0] := by
  have htext : Wire.Text Profile.standard.textLimit [] [0] :=
    @Wire.Text.raw _ [] [0] (by decide) (.six (by decide))
  cases kind with
  | string => exact ⟨.string [], rfl, htext⟩
  | list => exact ⟨.list [], rfl, counted_nil (by decide)⟩
  | set => exact ⟨.set [], rfl, counted_nil (by decide)⟩
  | sortedSet => exact ⟨.sortedSet [], rfl, counted_nil (by decide)⟩
  | sortedSet2 => exact ⟨.sortedSet2 [], rfl, counted_nil (by decide)⟩
  | hash => exact ⟨.hash [], rfl, counted_nil (by decide)⟩
  | hashZipmap => exact ⟨.container .hashZipmap [], rfl, htext⟩
  | listZiplist => exact ⟨.container .listZiplist [], rfl, htext⟩
  | setIntset => exact ⟨.container .setIntset [], rfl, htext⟩
  | sortedSetZiplist => exact ⟨.container .sortedSetZiplist [], rfl, htext⟩
  | hashZiplist => exact ⟨.container .hashZiplist [], rfl, htext⟩
  | listQuicklist => exact ⟨.quicklist [], rfl, counted_nil (by decide)⟩
  | listQuicklist2 => exact ⟨.quicklist2 [], rfl, counted_nil (by decide)⟩
  | setListpack => exact ⟨.container .setListpack [], rfl, htext⟩
  | hashListpack => exact ⟨.container .hashListpack [], rfl, htext⟩
  | sortedSetListpack => exact ⟨.container .sortedSetListpack [], rfl, htext⟩

theorem tablesAgree : TablesAgree where
  since := by
    rintro (op | kind)
    · cases op <;> decide
    · cases kind <;> decide
  opcode := fun op => ⟨Opcode.ofByte?_code op, by cases op <;> decide⟩
  value := fun kind =>
    ⟨ValueCode.ofByte?_known kind, ofByte?_kind_code kind, exists_content kind⟩
  refused := fun kind => ⟨ValueCode.ofByte?_refused kind, by cases kind <;> decide⟩

/-! ### Expansion -/

namespace Lzf

/-- Every copy that a token makes starts inside the output, and stays within the size. -/
def CopiesInside : Prop :=
  ∀ (control : UInt8) (offset : Nat) (src rest : Bytes) (distance length size : Nat)
    (out out' : Array UInt8), readToken control offset src = .ok (.copy distance length, rest) →
      (Token.copy distance length).apply size out = .ok out' →
        0 < distance ∧ distance ≤ out.size ∧ out'.size = out.size + length ∧ out'.size ≤ size

theorem distance_pos_of_copyToken {control field distance length : Nat} {src rest : Bytes}
    (h : copyToken control field src = .ok (.copy distance length, rest)) : 0 < distance := by
  cases src with
  | nil => cases h
  | cons b src =>
    cases h
    exact Nat.succ_pos _

theorem distance_pos_of_readToken {control : UInt8} {offset distance length : Nat}
    {src rest : Bytes} (h : readToken control offset src = .ok (.copy distance length, rest)) :
    0 < distance := by
  unfold readToken at h
  dsimp only at h
  split at h
  · split at h
    · cases h
    · cases h
  · split at h
    · split at h
      · cases h
      · exact distance_pos_of_copyToken h
    · exact distance_pos_of_copyToken h

theorem copiesInside : CopiesInside := by
  intro control offset src rest distance length size out out' hread happly
  refine ⟨distance_pos_of_readToken hread, ?_⟩
  simp only [Token.apply] at happly
  split at happly
  · cases happly
  · split at happly
    · cases happly
    · cases happly
      rw [size_appendCopy]
      omega

/-- Below the room for strings only the payload can be refused. -/
theorem isFault_of_decompressTo {size : Nat} {bs : Bytes} {e : Refusal}
    (hsize : (size : Int) ≤ defaultTextLimit) (h : decompressTo size bs = .error e) :
    e.isFault = true := by
  have hroom : Room.standard.Holds size := by
    unfold defaultTextLimit at hsize
    exact Room.holds_standard (by omega)
  rw [decompressTo_of_holds hroom] at h
  cases hd : decompress bs size with
  | ok out =>
    rw [hd] at h
    cases h
  | error e' =>
    rw [hd] at h
    cases h
    rfl

end Lzf

/-! ### Sessions -/

namespace Session

/-- Nothing goes wrong with a session but what its snapshot brings about: it may have been closed,
have failed before, or meet a fault of the snapshot; a part of the format that it refuses is newer
than the version that it has accepted; and what it has delivered passes its checks and is a key
of known content, or no key. -/
structure Safe (p : Profile) (s : Session) : Prop where
  read : ∀ e, s.next.1 = .error e → e.isFinal = true
  version : ∀ part version,
    s.next.1 = .error (.reading (.format (.tooNew part version))) →
      s.next.2.phase = .failed (some version) ∧ p.minVersion ≤ version ∧
        version ≤ p.maxVersion ∧ p.refuses part version = true
  entries : ∀ e ∈ s.entries, e.draft.check = .ok e
  values : ∀ e ∈ s.entries, ∀ values, e.values? = some values → Entry.Readable values

theorem rules_safe {p : Profile} (htext : p.textLimit ≤ defaultTextLimit)
    (hlimits : p.WritableLimits) (data : Bytes) :
    Read.Rules (Input.Midway data) (fun e => e.isFault = true ∧ e.isGate = false) p := by
  refine Read.rules_midway data ?_ (fun _ hf hg => ⟨hf, hg⟩) ?_ (.inl hlimits)
  · intro e he
    cases e with
    | truncated => exact ⟨rfl, rfl⟩
    | format | payload | unsupported | tooLarge | source | negativeRequest => cases he
  · intro size bs e hsize hd
    exact ⟨Lzf.isFault_of_decompressTo (Int.le_trans hsize htext) hd, rfl⟩

theorem Keeps.safe {p : Profile} {data : Bytes} {s : Session}
    (htext : p.textLimit ≤ defaultTextLimit) (hlimits : p.WritableLimits)
    (h : Keeps p (Input.Midway data) s) : Safe p s := by
  have hr := rules_safe htext hlimits data
  have hnext := h.next hr
  refine ⟨fun e he => ?_, fun part version he => ?_, fun e he => (h.entries e he).check,
    fun e he values hv => (h.entries e he).readable hv⟩
  · cases e with
    | closed | failed => rfl
    | reading e =>
      rcases h.next_error hr (Prod.ext he rfl) with hf | ⟨version, part, -, -, rfl⟩
      · exact hf.1
      · rfl
  · rcases h.next_error hr (Prod.ext he rfl) with hf | ⟨version', part', hp, hrefuses, heq⟩
    · cases hf.2
    · cases heq
      obtain ⟨hmin, hmax⟩ := hnext.version version (by rw [hp]; rfl)
      exact ⟨hp, hmin, hmax, hrefuses⟩

/-- **Only faults of the snapshot stop a session.** -/
theorem safe_run {p : Profile} (hfits : MachineWord.Fits p.bufferSize)
    (htext : p.textLimit ≤ defaultTextLimit) (hlimits : p.WritableLimits) (data : Bytes)
    (ops : List Step) :
    Safe p ((start p (.ofBytes data)).run ops) ∧ TablesAgree ∧ Lzf.CopiesInside :=
  ⟨(keeps_memory hfits data ops).safe htext hlimits, tablesAgree, Lzf.copiesInside⟩

/-- A snapshot that is cut inside a key's value, which is read on after its failure. -/
theorem safe_run_cut :
    MachineWord.Fits Profile.standard.bufferSize ∧
      Profile.standard.textLimit ≤ defaultTextLimit ∧ Profile.standard.WritableLimits ∧
      Safe .standard ((start .standard (.ofBytes
        [0x52, 0x45, 0x44, 0x49, 0x53, 0x30, 0x30, 0x31, 0x31, 0x0D, 1, 0x6B, 2, 0])).run
          [.next, .allValues, .next, .close]) :=
  ⟨by decide, by decide, by decide, (safe_run (by decide) (by decide) (by decide) _ _).1⟩

/-- Memory that is asked for more bytes than a machine word can count fails in a way that is no
fault of the snapshot; and where it is not asked for so many, a limit that cannot be written out
does. -/
theorem unsafe_beyond_bounds :
    (¬ ∀ (p : Profile) (data : Bytes) (ops : List Step), p.textLimit ≤ defaultTextLimit →
      ∀ e, ((start p (.ofBytes data)).run ops).next.1 = .error e → e.isFinal = true) ∧
    ¬ ∀ (p : Profile) (data : Bytes) (ops : List Step), MachineWord.Fits p.bufferSize →
      p.textLimit ≤ defaultTextLimit →
        ∀ e, ((start p (.ofBytes data)).run ops).next.1 = .error e → e.isFinal = true := by
  constructor
  · intro h
    let p := Profile.standard.withBufferSize Profile.tooWideSize (by decide)
    have hn := next_start_of_not_fits (p := p) (by decide) [0x52]
    cases h p [0x52] [] (by decide) _ (congrArg Prod.fst hn)
  · intro h
    obtain ⟨s, hn, -⟩ := next_unwritableTexts
    have htext : unwritableTexts.textLimit ≤ defaultTextLimit :=
      Int.le_trans (Int.le_of_lt textLimit_unwritableTexts_neg) (by decide)
    have hfits : MachineWord.Fits unwritableTexts.bufferSize :=
      show MachineWord.Fits Profile.standard.bufferSize by decide
    cases h unwritableTexts emptyKeySnapshot [] hfits htext _ (congrArg Prod.fst hn)

end Session

end RedisDump
