import RedisDump.Proofs.Outcome.Basic
import RedisDump.Proofs.Wire.Value
import RedisDump.Snapshot.Header
import RedisDump.Snapshot.Record

/-!
# What readers return and refuse

The ends of every reader of a snapshot, once. They rest on three things (`Read.Rules`): what the
input stays in while single bytes are read, which errors may be met, and for which payloads of
strings within the limit and for which limits. Three ends tell more than that: the version in a
header is one that the profile accepts (`Rules.header`), what is read of a value is the content of a
key of its kind (`Rules.value`), and a checksum has its width (`Rules.eof`).
-/

namespace RedisDump

/-- Whether an error refuses a part of the format that is newer than the snapshot. -/
def ReadError.isGate : ReadError → Bool
  | .format (.tooNew ..) => true
  | _ => false

namespace Read

/-- What the ends of readers rest on: reading a byte keeps the input in `P` and fails with errors
in `E`, in which are all faults of the snapshot but its version, all refusals of payloads that stand
for no more bytes than the profile allows, and what comes of limits that cannot be written out, if
there are such. -/
structure Rules (P : Input → Prop) (E : ReadError → Prop) (p : Profile) : Prop where
  next : ∀ needed, Ensures P Anything E (Read.next needed)
  fault : ∀ e : ReadError, e.isFault = true → e.isGate = false → E e
  payload : ∀ (size : Nat) (bs : Bytes) (e : Lzf.Refusal), (size : Int) ≤ p.textLimit →
    Lzf.decompressTo size bs = .error e → E (.payload e)
  limits : p.WritableLimits ∨ E (.tooLarge .unwritable)

namespace Rules

/-- There are rules that say nothing of the input and of errors. -/
theorem anything (p : Profile) : Rules Anything Anything p :=
  ⟨fun _ => .anything _, fun _ _ _ => trivial, fun _ _ _ _ _ => trivial, .inr trivial⟩

variable {P : Input → Prop} {E : ReadError → Prop} {p : Profile}

/-- A refusal of a size may be met; it can be made, or the limit cannot be written out. -/
theorem tooLarge (h : Rules P E p) {e : SizeError}
    (he : e = .unwritable → ¬ p.WritableLimits) : E (.tooLarge e) := by
  cases e with
  | tooManyElements | tooLongText => exact h.fault _ rfl rfl
  | unwritable => exact h.limits.resolve_left (he rfl)

/-! ### Bytes, lengths, strings and scores -/

theorem byte (h : Rules P E p) : Ensures P Anything E Read.byte :=
  h.next 1

theorem bytes (h : Rules P E p) (n : Nat) :
    Ensures P (fun bs => bs.length = n) E (Read.bytes n) :=
  .collect_length h.next n

theorem bigEndian (h : Rules P E p) (n : Nat) : Ensures P Anything E (Read.bigEndian n) :=
  (h.bytes n).map fun _ _ => trivial

theorem littleEndian (h : Rules P E p) (n : Nat) :
    Ensures P Anything E (Read.littleEndian n) :=
  (h.bytes n).map fun _ _ => trivial

theorem wideLength (h : Rules P E p) (b : UInt8) :
    Ensures P Anything E (Read.wideLength b) := by
  unfold Read.wideLength
  split
  · exact h.bigEndian 4
  · split
    · exact h.bigEndian 8
    · exact .throw (h.fault _ rfl rfl)

theorem lengthFrom (h : Rules P E p) (b : UInt8) :
    Ensures P Anything E (Read.lengthFrom b) := by
  unfold Read.lengthFrom
  split
  · exact .pure trivial
  · exact h.byte.map fun _ _ => trivial
  · exact h.wideLength b
  · exact .throw (h.fault _ rfl rfl)

theorem length (h : Rules P E p) : Ensures P Anything E Read.length :=
  h.byte.bind fun b _ => h.lengthFrom b

theorem checkTextLength (h : Rules P E p) (n : Nat) :
    Ensures P (fun _ => (n : Int) ≤ p.textLimit) E (Read.checkTextLength p.textLimit n) := by
  unfold Read.checkTextLength
  split
  · refine .throw (h.tooLarge fun hu hp => ?_)
    exact SizeError.ofText_eq_unwritable_iff.mp hu hp.texts
  · rename_i hn
    exact .pure (Int.not_lt.mp hn)

theorem rawText (h : Rules P E p) (n : Nat) : Ensures P Anything E (Read.rawText p.textLimit n) :=
  (h.checkTextLength n).bind fun _ _ => (h.bytes n).returns fun _ _ => trivial

theorem integerText (h : Rules P E p) (width : Nat) :
    Ensures P Anything E (Read.integerText width) :=
  (h.bytes width).map fun _ _ => trivial

theorem compressedText (h : Rules P E p) :
    Ensures P Anything E (Read.compressedText p.textLimit) := by
  refine h.length.bind fun packed _ => h.length.bind fun size _ =>
    (h.checkTextLength size).bind fun _ hsize => (h.rawText packed).bind fun payload _ => ?_
  split
  · exact .pure trivial
  · rename_i he
    exact .throw (h.payload size payload _ hsize he)

theorem specialText (h : Rules P E p) (form : Nat) :
    Ensures P Anything E (Read.specialText p.textLimit form) := by
  unfold Read.specialText
  split
  · exact h.integerText 1
  · exact h.integerText 2
  · exact h.integerText 4
  · exact h.compressedText
  · exact .throw (h.fault _ rfl rfl)

theorem text (h : Rules P E p) : Ensures P Anything E (Read.text p.textLimit) := by
  rw [Read.text_eq]
  refine h.byte.bind fun b _ => ?_
  split
  · exact h.specialText _
  · exact (h.lengthFrom b).bind fun n _ => h.rawText n

theorem scoreText (h : Rules P E p) : Ensures P Anything E Read.scoreText := by
  refine h.byte.bind fun b _ => ?_
  split
  · exact .pure trivial
  · exact .pure trivial
  · exact .pure trivial
  · exact (h.bytes _).returns fun _ _ => trivial

theorem scoreBinary (h : Rules P E p) :
    Ensures P (fun s => ∃ x : Binary64, x.text = s) E Read.scoreBinary :=
  (h.bytes 8).map fun _ _ => ⟨_, rfl⟩

/-! ### The header -/

theorem signature (h : Rules P E p) : Ensures P Anything E Read.signature := by
  refine (h.bytes _).bind fun _ _ => ?_
  split
  · exact .pure trivial
  · exact .throw (h.fault _ rfl rfl)

theorem versionField (h : Rules P E p) : Ensures P Anything E Read.versionField := by
  refine (h.bytes _).bind fun _ _ => ?_
  split
  · exact .pure trivial
  · exact .throw (h.fault _ rfl rfl)

/-- The version in a header is one that the profile accepts. -/
theorem header (h : Rules P E p) (q : Profile) :
    Ensures P (fun v => q.minVersion ≤ v ∧ v ≤ q.maxVersion) E (Read.header q) := by
  refine h.signature.bind fun _ _ => h.versionField.bind fun version _ => ?_
  split
  · rename_i hv
    exact .pure hv
  · exact .throw (h.fault _ rfl rfl)

/-! ### The values of keys -/

/-- A limit on elements is one of those that can be written out. -/
theorem count (h : Rules P E p) (collection : Collection) {limit : Int}
    (hlimit : p.WritableLimits → Text.Writable limit) :
    Ensures P Anything E (Read.count collection limit) := by
  refine h.length.bind fun _ _ => ?_
  split
  · refine .throw (h.tooLarge fun hu hp => ?_)
    exact SizeError.ofElements_eq_unwritable_iff.mp hu (hlimit hp)
  · exact .pure trivial

theorem texts (h : Rules P E p) (collection : Collection) :
    Ensures P Anything E (Read.texts p collection) :=
  (h.count _ (·.elements)).bind fun n _ =>
    (Ensures.collect_length (fun _ => h.text) n).returns fun _ _ => trivial

theorem pair (h : Rules P E p) {α : Type} {f : α → Bytes} {second : Read Bytes}
    (hs : Ensures P (fun b => ∃ a, f a = b) E second) :
    Ensures P (fun q => ∃ m : Bytes × α, (m.1, f m.2) = q) E (Read.pair p second) :=
  h.text.bind fun a _ => hs.map fun _ ⟨b, hb⟩ => ⟨(a, b), by rw [hb]⟩

/-- What is read pair by pair is flat. -/
theorem pairs (h : Rules P E p) (collection : Collection) {α : Type} {f : α → Bytes}
    {second : Read Bytes} (hs : Ensures P (fun b => ∃ a, f a = b) E second) :
    Ensures P (fun xs => ∃ ms : List (Bytes × α),
      Bytes.flattenPairs (ms.map fun m => (m.1, f m.2)) = xs) E
        (Read.pairs p collection second) :=
  (h.count _ (·.pairs)).bind fun n _ =>
    (Ensures.collect (fun _ => h.pair hs) n).map fun _ ⟨ms, _, hms⟩ => ⟨ms, by rw [hms]⟩

theorem flatPairs (h : Rules P E p) (collection : Collection) {second : Read Bytes}
    (hs : Ensures P Anything E second) :
    Ensures P (fun xs => ∃ ms : List (Bytes × Bytes), Bytes.flattenPairs ms = xs) E
      (Read.pairs p collection second) := by
  have hid : Ensures P (fun b => ∃ a, id a = b) E second :=
    hs.returns fun b _ => ⟨b, rfl⟩
  exact (h.pairs collection hid).returns fun _ ⟨_, hms⟩ => ⟨_, hms⟩

theorem node (h : Rules P E p) :
    Ensures P (fun q => ∃ n : Nat × Bytes, (Int.ofNat n.1, n.2) = q) E (Read.node p) :=
  h.length.bind fun form _ => h.text.map fun data _ => ⟨(form, data), rfl⟩

theorem nodes (h : Rules P E p) :
    Ensures P (fun qs => ∃ ns : List (Nat × Bytes), ns.map (fun n => (Int.ofNat n.1, n.2)) = qs) E
      (Read.nodes p) :=
  (h.count _ (·.elements)).bind fun n _ =>
    (Ensures.collect (fun _ => h.node) n).returns fun _ ⟨ns, _, hns⟩ => ⟨ns, hns⟩

theorem container (h : Rules P E p) (pack : Bytes → Packed) :
    Ensures P (fun d => ∃ data, Deferred.capture (pack data) = d) E (Read.container p pack) :=
  h.text.map fun data _ => ⟨data, rfl⟩

/-- What is read of a value is the content of a key of its kind. -/
theorem value (h : Rules P E p) (cutoff : Int) (kind : ValueKind) :
    Ensures P (fun d => ∃ c : Content, c.kind = kind ∧ c.values cutoff = d) E
      (Read.value p cutoff kind) := by
  have hcontainer (c : Container) :
      Ensures P (fun d => ∃ c' : Content, c'.kind = c.kind ∧ c'.values cutoff = d) E
        (Read.container p (c.pack cutoff)) :=
    (h.container _).returns fun _ ⟨data, hd⟩ => ⟨.container c data, rfl, hd⟩
  cases kind with
  | string => exact h.text.map fun s _ => ⟨.string s, rfl, rfl⟩
  | list => exact (h.texts _).map fun xs _ => ⟨.list xs, rfl, rfl⟩
  | set => exact (h.texts _).map fun xs _ => ⟨.set xs, rfl, rfl⟩
  | sortedSet =>
    exact (h.flatPairs _ h.scoreText).map fun _ ⟨ms, hms⟩ =>
      ⟨.sortedSet ms, rfl, by rw [← hms]; rfl⟩
  | sortedSet2 =>
    exact (h.pairs _ h.scoreBinary).map fun _ ⟨ms, hms⟩ => ⟨.sortedSet2 ms, rfl, by rw [← hms]; rfl⟩
  | hash => exact (h.flatPairs _ h.text).map fun _ ⟨fs, hfs⟩ => ⟨.hash fs, rfl, by rw [← hfs]; rfl⟩
  | listQuicklist => exact (h.texts _).map fun zs _ => ⟨.quicklist zs, rfl, rfl⟩
  | listQuicklist2 => exact h.nodes.map fun _ ⟨ns, hns⟩ => ⟨.quicklist2 ns, rfl, by rw [← hns]; rfl⟩
  | hashZipmap => exact hcontainer .hashZipmap
  | listZiplist => exact hcontainer .listZiplist
  | setIntset => exact hcontainer .setIntset
  | sortedSetZiplist => exact hcontainer .sortedSetZiplist
  | hashZiplist => exact hcontainer .hashZiplist
  | setListpack => exact hcontainer .setListpack
  | hashListpack => exact hcontainer .hashListpack
  | sortedSetListpack => exact hcontainer .sortedSetListpack

/-! ### Entries that are no keys -/

/-- A checksum has its width. -/
theorem eof (h : Rules P E p) (version : Nat) :
    Ensures P (fun e => ∃ c : Bytes, c.length = checksumWidth ∧ .eof c = e) E
      (ReadRecord.eof version) := by
  unfold ReadRecord.eof
  split
  · exact (h.bytes checksumWidth).map fun c hc => ⟨c, hc, rfl⟩
  · exact .pure ⟨_, List.length_replicate .., rfl⟩

theorem selectDb (h : Rules P E p) :
    Ensures P (fun e => ∃ id, .selectDb id = e) E ReadRecord.selectDb :=
  h.length.map fun id _ => ⟨id, rfl⟩

theorem resizeDb (h : Rules P E p) :
    Ensures P (fun e => ∃ size expireSize, .resizeDb size expireSize = e) E ReadRecord.resizeDb :=
  h.length.bind fun size _ => h.length.map fun expireSize _ => ⟨size, expireSize, rfl⟩

theorem aux (h : Rules P E p) :
    Ensures P (fun e => ∃ key value, .aux key value = e) E (ReadRecord.aux p) :=
  h.text.bind fun key _ => h.text.map fun value _ => ⟨key, value, rfl⟩

end Rules

end Read

/-! ### Records -/

/-- An entry as it is read in a snapshot of the given version: a checksum has its width, and a key
holds content of its kind. -/
inductive Entry.AsRead (p : Profile) (version : Nat) : Entry Packed → Prop where
  | eof {c : Bytes} : c.length = checksumWidth → AsRead p version (.eof c)
  | selectDb (id : Nat) : AsRead p version (.selectDb id)
  | resizeDb (size expireSize : Nat) : AsRead p version (.resizeDb size expireSize)
  | aux (key value : Bytes) : AsRead p version (.aux key value)
  | keyValue {fields : KeyFields} (c : Content) : c.kind = fields.kind →
    AsRead p version (.keyValue fields (c.values (p.cutoffFor version)))

/-- The errors of reading records in a snapshot of the given version: those of reading bytes, and
the refusals of parts newer than the snapshot. -/
def ReadError.OrGate (E : ReadError → Prop) (p : Profile) (version : Nat) (e : ReadError) : Prop :=
  E e ∨ ∃ part, p.refuses part version = true ∧ e = .format (.tooNew part version)

namespace ReadRecord

open Read (Rules)

variable {P : Input → Prop} {E : ReadError → Prop} {p : Profile} {version : Nat}

/-- A reader of records that ends with an input in `P`, a value in `Q`, or an error in `E` or of
the version. -/
def Yields {α : Type} (P : Input → Prop) (Q : α → Prop) (E : ReadError → Prop) (p : Profile)
    (version : Nat) (r : ReadRecord α) : Prop :=
  Ensures (fun s : Intake => P s.input) Q (ReadError.OrGate E p version) r

theorem ensures_fromInput {α : Type} {Q : α → Prop} {r : Read α} (h : Ensures P Q E r) :
    Ensures (fun s : Intake => P s.input) Q E (fromInput r) := by
  intro s hs
  have hr := h s.input hs
  unfold fromInput
  generalize r s.input = x at hr
  cases hr with
  | ok ha hi => exact .ok ha hi
  | error he hi => exact .error he hi

theorem yields_fromInput {α : Type} {Q : α → Prop} {r : Read α} (h : Ensures P Q E r) :
    Yields P Q E p version (fromInput r) :=
  (ensures_fromInput h).raises fun _ => .inl

theorem yields_throw {α : Type} {Q : α → Prop} (h : Rules P E p) {e : ReadError}
    (hf : e.isFault = true) (hg : e.isGate = false) :
    Yields P Q E p version (MonadExcept.throw e : ReadRecord α) :=
  .throw (.inl (h.fault e hf hg))

theorem yields_get : Yields P Anything E p version (get : ReadRecord Intake) :=
  fun _ hs => .ok trivial hs

theorem yields_note (f : KeyNotes → KeyNotes) : Yields P Anything E p version
    (modify fun s => { s with notes := f s.notes } : ReadRecord Unit) :=
  fun _ hs => .ok trivial hs

variable {Q : Entry Packed → Prop}

theorem note_yields {α : Type} {R : α → Prop} {r : Read α} (h : Ensures P R E r)
    (f : α → KeyNotes → KeyNotes) :
    Yields P (fun o => ∀ e ∈ o, Q e) E p version (note r f) := by
  refine (yields_fromInput h).bind fun a _ => (yields_note (f a)).bind fun _ _ => .pure ?_
  rintro e ⟨⟩

theorem gate_yields (part : VersionedPart) :
    Yields P Anything E p version (gate p version part) := by
  unfold gate
  split
  · rename_i hr
    exact .throw (.inr ⟨part, hr, rfl⟩)
  · exact .pure trivial

theorem standalone_yields (h : Rules P E p) (op : Opcode) {r : Read (Entry Packed)}
    (hr : Ensures P Q E r) : Yields P (fun o => ∀ e ∈ o, Q e) E p version (standalone op r) := by
  refine yields_get.bind fun s _ => ?_
  split
  · refine (yields_fromInput hr).map fun e he => ?_
    rintro _ ⟨⟩
    exact he
  · exact yields_throw h rfl rfl

/-- A key and its value, of which `K` and `V` hold. -/
theorem keyValue_yields {K : Bytes → Prop} {V : Deferred Packed → Prop} {kind : ValueKind}
    (hkey : Ensures P K E (Read.text p.textLimit))
    (hvalue : Ensures P V E (Read.value p (p.cutoffFor version) kind))
    (hq : ∀ (fields : KeyFields) (values : Deferred Packed), fields.kind = kind → K fields.key →
      V values → Q (.keyValue fields values)) :
    Yields P Q E p version (keyValue p version kind) :=
  (yields_fromInput hkey).bind fun key hk => (yields_fromInput hvalue).bind fun values hv =>
    yields_get.bind fun s _ => (yields_note fun _ => {}).map fun _ _ =>
      hq (s.notes.fields key kind) values rfl hk hv

/-- What is returned of each sort of record is in `Q`. -/
structure RecordEnds (P : Input → Prop) (Q : Entry Packed → Prop) (E : ReadError → Prop)
    (p : Profile) (version : Nat) : Prop where
  eof : Ensures P Q E (eof version)
  selectDb : Ensures P Q E selectDb
  resizeDb : Ensures P Q E resizeDb
  aux : Ensures P Q E (aux p)
  keyValue : ∀ kind, Yields P Q E p version (keyValue p version kind)

namespace RecordEnds

variable (hq : RecordEnds P Q E p version) (h : Rules P E p)

include hq h

theorem opcodeBody (op : Opcode) :
    Yields P (fun o => ∀ e ∈ o, Q e) E p version (opcodeBody p version op) := by
  unfold ReadRecord.opcodeBody
  cases op with
  | function2 | functionPreGa | moduleAux => exact yields_throw h rfl rfl
  | idle => exact note_yields h.length _
  | freq => exact note_yields h.byte _
  | expireTimeMs => exact note_yields (h.littleEndian 8) _
  | expireTime => exact note_yields (h.littleEndian 4) _
  | aux => exact standalone_yields h _ hq.aux
  | resizeDb => exact standalone_yields h _ hq.resizeDb
  | selectDb => exact standalone_yields h _ hq.selectDb
  | eof => exact standalone_yields h _ hq.eof

theorem keyRecord (b : UInt8) : Yields P Q E p version (keyRecord p version b) := by
  unfold ReadRecord.keyRecord
  split
  · exact yields_throw h rfl rfl
  · exact yields_throw h rfl rfl
  · exact (gate_yields _).bind fun _ _ => hq.keyValue _

theorem record : Yields P (fun o => ∀ e ∈ o, Q e) E p version (record p version) := by
  refine (yields_fromInput h.byte).bind fun b _ => ?_
  split
  · exact (gate_yields _).bind fun _ _ => hq.opcodeBody h _
  · refine (hq.keyRecord h b).map fun e he => ?_
    rintro _ ⟨⟩
    exact he

/-- What is returned as an entry is in `Q`. -/
theorem entry : Yields P Q E p version (entry p version) := by
  intro s hs
  have hrecord := hq.record h
  fun_induction ReadRecord.entry p version s with
  | case1 s e s' hr =>
    have hend := hrecord s hs
    rw [hr] at hend
    obtain ⟨he, hs'⟩ := hend.of_error
    exact .error he hs'
  | case2 s e s' hr =>
    have hend := hrecord s hs
    rw [hr] at hend
    obtain ⟨he, hs'⟩ := hend.of_ok
    exact .ok (he e rfl) hs'
  | case3 s s' hr ih =>
    have hend := hrecord s hs
    rw [hr] at hend
    exact ih hend.of_ok.2

end RecordEnds

theorem recordEnds_asRead (h : Rules P E p) :
    RecordEnds P (Entry.AsRead p version) E p version where
  eof := (h.eof version).returns fun _ ⟨_, hc, he⟩ => he ▸ .eof hc
  selectDb := h.selectDb.returns fun _ ⟨id, he⟩ => he ▸ .selectDb id
  resizeDb := h.resizeDb.returns fun _ ⟨size, expireSize, he⟩ => he ▸ .resizeDb size expireSize
  aux := h.aux.returns fun _ ⟨key, value, he⟩ => he ▸ .aux key value
  keyValue kind := by
    refine keyValue_yields h.text (h.value _ kind) fun fields values hkind _ hvalues => ?_
    obtain ⟨c, hc, rfl⟩ := hvalues
    exact .keyValue c (hc.trans hkind.symm)

/-- **How the reading of an entry ends.** It returns an entry that is as it should be, or fails in
one of the ways in which reading bytes may fail, or refuses a part newer than the snapshot. -/
theorem entry_yields (h : Rules P E p) :
    Yields P (Entry.AsRead p version) E p version (entry p version) :=
  (recordEnds_asRead h).entry h

end ReadRecord

end RedisDump
