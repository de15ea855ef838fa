import RedisDump.Proofs.Outcome.Sessions
import RedisDump.Proofs.Wire.Given

/-!
# Sizes above their limits

The bytes of an entry up to and including a declared size that is above its limit, as relations
that know no reader: everything in front of that size is in order. The size may be the length of a
raw string, one of the two lengths of a compressed string, of which that of the string counts
before that of the payload, or the number of elements of a collection. Each of them is refused with
the size and its limit, and nothing behind it is read (`EntryExcess.refuses`). A limit that cannot
be written out has no such refusal (`Session.next_unwritableTexts`).
-/

namespace RedisDump

/-! ### Refusing readers -/

/-- The reader takes just the bytes `bs` and fails with `e`, whatever follows. -/
def Refuses {α : Type} (bs : Bytes) (r : Read α) (e : ReadError) : Prop :=
  ∀ (rest : Bytes) (n : Nat) (i : Input), Input.Holds (bs ++ rest) n i →
    ∃ i', r i = .error e i' ∧ Input.Holds rest (n + bs.length) i'

namespace Refuses

variable {α β : Type} {bs cs : Bytes} {r : Read α} {f : α → Read β} {a : α} {e : ReadError}

theorem throw (e : ReadError) : Refuses [] (MonadExcept.throw e : Read α) e :=
  fun _ _ i h => ⟨i, rfl, h⟩

/-- What is read first is not refused. -/
theorem bind (hr : Reads bs r a) (hf : Refuses cs (f a) e) : Refuses (bs ++ cs) (r >>= f) e := by
  intro rest n i h
  rw [List.append_assoc] at h
  obtain ⟨i₁, h₁, hi₁⟩ := hr _ n i h
  obtain ⟨i₂, h₂, hi₂⟩ := hf _ _ i₁ hi₁
  refine ⟨i₂, (bind_of_ok h₁).trans h₂, ?_⟩
  rwa [List.length_append, ← Nat.add_assoc]

/-- What is read is refused without reading on. -/
theorem behind (hr : Reads bs r a) (hf : Refuses [] (f a) e) : Refuses bs (r >>= f) e := by
  have h := bind hr hf
  rwa [List.append_nil] at h

/-- What is read first is refused. -/
theorem bindLeft (hr : Refuses bs r e) : Refuses bs (r >>= f) e := by
  intro rest n i h
  obtain ⟨i', hi', hrest⟩ := hr rest n i h
  exact ⟨i', bind_of_error hi', hrest⟩

/-- The first byte decides how to go on. -/
theorem cons {b : UInt8} {f : UInt8 → Read β} (hf : Refuses bs (f b) e) :
    Refuses (b :: bs) (Read.byte >>= f) e :=
  bind (Reads.byte b) hf

theorem record (h : Refuses bs r e) (notes : KeyNotes) :
    RecordRefuses bs (ReadRecord.fromInput r) notes e := by
  intro rest n s hs _
  obtain ⟨i, hr, hi⟩ := h rest n s.input hs
  refine ⟨{ s with input := i }, ?_, hi⟩
  simp only [ReadRecord.fromInput, hr]

end Refuses

namespace Wire

variable {α β γ : Type}

/-! ### Strings -/

/-- The forms of a string up to a length above the limit. -/
inductive TextExcess (limit : Int) : SizeError → Bytes → Prop where
  | raw {n : Nat} {bs : Bytes} : Length n bs → limit < n → TextExcess limit (.ofText limit n) bs
  /-- The length of a compressed string. -/
  | size {m n : Nat} {packed size : Bytes} : Length m packed → Length n size → limit < n →
    TextExcess limit (.ofText limit n) (compressedCode :: (packed ++ size))
  /-- The length of its payload. -/
  | payload {m n : Nat} {packed size : Bytes} : Length m packed → Length n size →
    (n : Int) ≤ limit → limit < m →
      TextExcess limit (.ofText limit m) (compressedCode :: (packed ++ size))

theorem refuses_checkTextLength {limit : Int} {n : Nat} (h : limit < n) :
    Refuses [] (Read.checkTextLength limit n) (.tooLarge (.ofText limit n)) := by
  unfold Read.checkTextLength
  rw [if_pos h]
  exact .throw _

theorem refuses_rawText {limit : Int} {n : Nat} (h : limit < n) :
    Refuses [] (Read.rawText limit n) (.tooLarge (.ofText limit n)) :=
  (refuses_checkTextLength h).bindLeft

theorem refuses_compressedText {limit : Int} {m n : Nat} {packed size : Bytes} {e : ReadError}
    (hpacked : Length m packed) (hsize : Length n size)
    (h : ∀ f : Bytes → Read Bytes,
      Refuses [] (Read.checkTextLength limit n >>= fun _ => Read.rawText limit m >>= f) e) :
    Refuses (packed ++ size) (Read.compressedText limit) e :=
  .bind hpacked.reads (.behind hsize.reads (h _))

theorem TextExcess.refuses {limit : Int} {e : SizeError} {bs : Bytes} (h : TextExcess limit e bs) :
    Refuses bs (Read.text limit) (.tooLarge e) := by
  rw [Read.text_eq]
  cases h with
  | raw hlen hlimit =>
    obtain ⟨b, cs, rfl⟩ := hlen.exists_cons
    refine .cons ?_
    rw [if_neg hlen.first_ne]
    exact .behind ((lengthFrom_recognises b).reads hlen) (refuses_rawText hlimit)
  | size hpacked hsize hlimit =>
    refine .cons ?_
    rw [if_pos (by decide)]
    exact refuses_compressedText hpacked hsize fun _ => (refuses_checkTextLength hlimit).bindLeft
  | payload hpacked hsize hn hlimit =>
    refine .cons ?_
    rw [if_pos (by decide)]
    have hcheck : Reads [] (Read.checkTextLength limit _) () :=
      (checkTextLength_recognises limit _).reads ⟨hn, rfl⟩
    exact refuses_compressedText hpacked hsize fun _ =>
      .bind hcheck (refuses_rawText hlimit).bindLeft

/-! ### Collections -/

/-- No size is declared. -/
def NoExcess (_ : SizeError) (_ : Bytes) : Prop := False

/-- The forms of a sequence of so many elements up to a size above its limit in one of them. -/
inductive SequenceExcess (form : α → Bytes → Prop) (excess : SizeError → Bytes → Prop) :
    Nat → SizeError → Bytes → Prop where
  | head {n : Nat} {e : SizeError} {bs : Bytes} : excess e bs →
    SequenceExcess form excess (n + 1) e bs
  | tail {n : Nat} {e : SizeError} {a : α} {bs cs : Bytes} : form a bs →
    SequenceExcess form excess n e cs → SequenceExcess form excess (n + 1) e (bs ++ cs)

/-- The forms of a pair up to a size above its limit in one of its parts. -/
inductive PairExcess (form : α → Bytes → Prop) (first second : SizeError → Bytes → Prop) :
    SizeError → Bytes → Prop where
  | first {e : SizeError} {bs : Bytes} : first e bs → PairExcess form first second e bs
  | second {e : SizeError} {a : α} {bs cs : Bytes} : form a bs → second e cs →
    PairExcess form first second e (bs ++ cs)

/-- The forms of a counted sequence up to a number of elements above the limit, or up to a size
above its limit in one of them. -/
inductive CountedExcess (collection : Collection) (limit : Int) (form : α → Bytes → Prop)
    (excess : SizeError → Bytes → Prop) : SizeError → Bytes → Prop where
  | count {n : Nat} {bs : Bytes} : Length n bs → limit < n →
    CountedExcess collection limit form excess (.ofElements collection limit n) bs
  | element {n : Nat} {e : SizeError} {count bs : Bytes} : Length n count → (n : Int) ≤ limit →
    SequenceExcess form excess n e bs →
      CountedExcess collection limit form excess e (count ++ bs)

theorem SequenceExcess.refuses {form : α → Bytes → Prop} {excess : SizeError → Bytes → Prop}
    {item : Nat → Read β} (hform : ∀ a bs k, form a bs → ∃ b, Reads bs (item k) b)
    (hexcess : ∀ e bs k, excess e bs → Refuses bs (item k) (.tooLarge e)) {n : Nat}
    {e : SizeError} {bs : Bytes} (h : SequenceExcess form excess n e bs) (done : List β) :
    Refuses bs (collectInto item n done) (.tooLarge e) := by
  induction h generalizing done with
  | head he =>
    rw [collectInto_succ]
    exact (hexcess _ _ _ he).bindLeft
  | tail ha _ ih =>
    rw [collectInto_succ]
    obtain ⟨b, hb⟩ := hform _ _ _ ha
    exact .bind hb (ih (b :: done))

/-- A counted sequence is refused with its number of elements, or with the first element that is
refused. -/
theorem CountedExcess.refuses {collection : Collection} {limit : Int} {form : α → Bytes → Prop}
    {excess : SizeError → Bytes → Prop} {item : Nat → Read β} {rest : Nat → Read γ} {e : SizeError}
    {bs : Bytes} (h : CountedExcess collection limit form excess e bs)
    (hform : ∀ a bs k, form a bs → ∃ b, Reads bs (item k) b)
    (hexcess : ∀ e bs k, excess e bs → Refuses bs (item k) (.tooLarge e))
    (hrest : ∀ n bs, Refuses bs (collect item n) (.tooLarge e) →
      Refuses bs (rest n) (.tooLarge e)) :
    Refuses bs (Read.count collection limit >>= rest) (.tooLarge e) := by
  cases h with
  | count hlen hlimit =>
    refine (Refuses.behind hlen.reads ?_).bindLeft
    rw [if_pos hlimit]
    exact .throw _
  | element hlen hlimit hs =>
    exact .bind (reads_count hlimit hlen) (hrest _ _ (hs.refuses hform hexcess []))

/-! ### Values -/

/-- The forms of a value of a kind up to a size above its limit. -/
def ValueExcess (p : Profile) : ValueKind → SizeError → Bytes → Prop
  | .list => CountedExcess .lists p.elementLimit (Text p.textLimit) (TextExcess p.textLimit)
  | .set => CountedExcess .sets p.elementLimit (Text p.textLimit) (TextExcess p.textLimit)
  | .sortedSet => CountedExcess .sortedSets p.pairLimit (Pair (Text p.textLimit) ScoreText)
      (PairExcess (Text p.textLimit) (TextExcess p.textLimit) NoExcess)
  | .sortedSet2 => CountedExcess .sortedSets p.pairLimit (Pair (Text p.textLimit) ScoreBinary)
      (PairExcess (Text p.textLimit) (TextExcess p.textLimit) NoExcess)
  | .hash => CountedExcess .hashes p.pairLimit (Pair (Text p.textLimit) (Text p.textLimit))
      (PairExcess (Text p.textLimit) (TextExcess p.textLimit) (TextExcess p.textLimit))
  | .listQuicklist =>
    CountedExcess .quicklists p.elementLimit (Text p.textLimit) (TextExcess p.textLimit)
  | .listQuicklist2 => CountedExcess .quicklists p.elementLimit (Pair Length (Text p.textLimit))
      (PairExcess Length NoExcess (TextExcess p.textLimit))
  | .string | .hashZipmap | .listZiplist | .setIntset | .sortedSetZiplist | .hashZiplist
  | .setListpack | .hashListpack | .sortedSetListpack => TextExcess p.textLimit

variable {p : Profile} {e : SizeError} {bs : Bytes}

theorem refuses_texts {collection : Collection}
    (h : CountedExcess collection p.elementLimit (Text p.textLimit) (TextExcess p.textLimit) e bs) :
    Refuses bs (Read.texts p collection) (.tooLarge e) :=
  h.refuses (fun _ _ _ ht => ⟨_, ht.reads⟩) (fun _ _ _ he => he.refuses) fun _ _ hr => hr

theorem refuses_pairs {collection : Collection} {form : α → Bytes → Prop}
    {second : Read Bytes} {excess : SizeError → Bytes → Prop} {f : α → Bytes}
    (hform : ∀ a bs, form a bs → Reads bs second (f a))
    (hexcess : ∀ e bs, excess e bs → Refuses bs second (.tooLarge e))
    (h : CountedExcess collection p.pairLimit (Pair (Text p.textLimit) form)
      (PairExcess (Text p.textLimit) (TextExcess p.textLimit) excess) e bs) :
    Refuses bs (Read.pairs p collection second) (.tooLarge e) := by
  have hpair : ∀ e bs (k : Nat),
      PairExcess (Text p.textLimit) (TextExcess p.textLimit) excess e bs →
        Refuses bs ((fun _ => Read.pair p second) k) (.tooLarge e) := by
    intro e bs _ he
    cases he with
    | first he => exact he.refuses.bindLeft
    | second ht he => exact .bind ht.reads (hexcess _ _ he).bindLeft
  exact h.refuses (fun _ _ _ hp => ⟨_, hp.reads hform⟩) hpair fun _ _ hr => hr.bindLeft

theorem refuses_nodes
    (h : CountedExcess .quicklists p.elementLimit (Pair Length (Text p.textLimit))
      (PairExcess Length NoExcess (TextExcess p.textLimit)) e bs) :
    Refuses bs (Read.nodes p) (.tooLarge e) := by
  have hform : ∀ n bs (k : Nat), Pair Length (Text p.textLimit) n bs →
      ∃ b, Reads bs ((fun _ => Read.node p) k) b := by
    rintro _ _ _ ⟨hl, ht⟩
    exact ⟨_, hl.reads.bind (ht.reads.map _)⟩
  have hnode : ∀ e bs (k : Nat), PairExcess Length NoExcess (TextExcess p.textLimit) e bs →
      Refuses bs ((fun _ => Read.node p) k) (.tooLarge e) := by
    intro e bs _ he
    cases he with
    | first he => exact he.elim
    | second hl he => exact .bind hl.reads he.refuses.bindLeft
  exact h.refuses hform hnode fun _ _ hr => hr

theorem ValueExcess.refuses {kind : ValueKind} (h : ValueExcess p kind e bs) (cutoff : Int) :
    Refuses bs (Read.value p cutoff kind) (.tooLarge e) := by
  cases kind with
  | list | set | listQuicklist => exact (refuses_texts h).bindLeft
  | sortedSet =>
    exact (refuses_pairs (fun _ _ hs => ScoreText.reads hs) (fun _ _ he => he.elim) h).bindLeft
  | sortedSet2 =>
    exact (refuses_pairs (fun _ _ hs => ScoreBinary.reads hs) (fun _ _ he => he.elim) h).bindLeft
  | hash =>
    exact (refuses_pairs (fun _ _ ht => Text.reads ht) (fun _ _ he => TextExcess.refuses he)
      h).bindLeft
  | listQuicklist2 => exact (refuses_nodes h).bindLeft
  | string | hashZipmap | listZiplist | setIntset | sortedSetZiplist | hashZiplist | setListpack
  | hashListpack | sortedSetListpack => exact (TextExcess.refuses h).bindLeft

/-! ### Entries -/

/-- The forms of an entry up to a size above its limit, in a snapshot of the given version and with
what has been noted for the next key. -/
inductive EntryExcess (p : Profile) (version : Nat) (notes : KeyNotes) :
    SizeError → Bytes → Prop where
  /-- In the name of an information field. -/
  | auxName {e : SizeError} {bs : Bytes} : notes.isEmpty = true →
    p.refuses (.opcode .aux) version = false → TextExcess p.textLimit e bs →
      EntryExcess p version notes e (Opcode.aux.code :: bs)
  /-- In its value. -/
  | auxValue {e : SizeError} {name bs cs : Bytes} : notes.isEmpty = true →
    p.refuses (.opcode .aux) version = false → Text p.textLimit name bs →
      TextExcess p.textLimit e cs → EntryExcess p version notes e (Opcode.aux.code :: (bs ++ cs))
  /-- In a key. -/
  | key {e : SizeError} {marks : List Mark} {kind : ValueKind} {ms bs : Bytes} :
    Sequence (MarkForm p version) marks ms → p.refuses (.value kind) version = false →
      TextExcess p.textLimit e bs → EntryExcess p version notes e (ms ++ kind.code :: bs)
  /-- In the value of a key. -/
  | value {e : SizeError} {marks : List Mark} {kind : ValueKind} {name ms bs cs : Bytes} :
    Sequence (MarkForm p version) marks ms → p.refuses (.value kind) version = false →
      Text p.textLimit name bs → ValueExcess p kind e cs →
        EntryExcess p version notes e (ms ++ kind.code :: (bs ++ cs))

open ReadRecord

variable {version : Nat} {notes : KeyNotes}

theorem refuses_standalone_body {op : Opcode} {r : Read (Entry Packed)} {e : ReadError}
    (h : Refuses bs r e) (hn : notes.isEmpty = true) :
    RecordRefuses bs (standalone op r) notes e := by
  intro rest n s hs hnotes
  have hget : (get : ReadRecord Intake) s = .ok s s := rfl
  have hempty : s.notes.isEmpty = true := by rw [hnotes, hn]
  unfold standalone
  rw [bind_of_ok hget, hempty]
  exact RecordRefuses.bindLeft (h.record s.notes) rest n s hs rfl

/-- **A size above its limit is refused**, and nothing behind it is read. -/
theorem EntryExcess.refuses (h : EntryExcess p version notes e bs) :
    RecordRefuses bs (entry p version) notes (.tooLarge e) := by
  cases h with
  | auxName hn hv he =>
    have hr : Refuses _ (aux p) (.tooLarge e) := he.refuses.bindLeft
    exact refuses_entry_of_record (refuses_record_opcode hv (refuses_standalone_body hr hn))
  | auxValue hn hv ht he =>
    have hr : Refuses _ (aux p) (.tooLarge e) := .bind ht.reads he.refuses.bindLeft
    exact refuses_entry_of_record (refuses_record_opcode hv (refuses_standalone_body hr hn))
  | key hm hv he =>
    refine refuses_entry_marks hm (refuses_record_key hv ?_)
    exact RecordRefuses.bindLeft (he.refuses.record _)
  | value hm hv ht he =>
    refine refuses_entry_marks hm (refuses_record_key hv ?_)
    exact RecordRefuses.bind (RecordReads.input ht.reads _)
      (RecordRefuses.bindLeft ((he.refuses _).record _))

end Wire

/-! ### A limit that cannot be written out -/

/-- A profile whose limit for strings has one digit too many. -/
def unwritableTexts : Profile :=
  { Profile.standard with textLimit := -(10 ^ Text.digitLimit : Nat) }

theorem not_writable_unwritableTexts : ¬ Text.Writable unwritableTexts.textLimit := by
  unfold Text.Writable
  have habs : unwritableTexts.textLimit.natAbs = 10 ^ Text.digitLimit := Int.natAbs_neg _
  rw [habs]
  exact Nat.lt_irrefl _

theorem textLimit_unwritableTexts_neg : unwritableTexts.textLimit < 0 :=
  Int.neg_neg_of_pos (Int.natCast_pos.mpr (Nat.pow_pos (by decide)))

/-- A snapshot of version 11 that ends behind the length of an empty key. -/
def emptyKeySnapshot : Bytes :=
  [0x52, 0x45, 0x44, 0x49, 0x53, 0x30, 0x30, 0x31, 0x31, 0x00, 0x00]

/-- A session under a limit that cannot be written out fails with that, and not for good. -/
theorem Session.next_unwritableTexts :
    ∃ s, (start unwritableTexts (.ofBytes emptyKeySnapshot)).next =
        (.error (.reading (.tooLarge .unwritable)), s) ∧ s.phase = .ready 11 := by
  have hheader : ReadRecord.fromInput (Read.header unwritableTexts)
      (start unwritableTexts (.ofBytes emptyKeySnapshot)).intake =
        .ok 11 (.behind .standard emptyKeySnapshot 9) := rfl
  have hunwritable : SizeError.ofText unwritableTexts.textLimit 0 = .unwritable :=
    SizeError.ofText_eq_unwritable_iff.mpr not_writable_unwritableTexts
  have hexcess : Wire.EntryExcess unwritableTexts 11 {} .unwritable
      ([] ++ ValueKind.string.code :: [0x00]) := by
    rw [← hunwritable]
    exact .key .nil rfl (.raw (.six (by decide)) textLimit_unwritableTexts_neg)
  have hgives : Input.Gives ([] ++ ValueKind.string.code :: [0x00])
      (Intake.behind .standard emptyKeySnapshot 9).input
      (Intake.behind .standard emptyKeySnapshot 11).input :=
    .cons rfl (.cons rfl (.nil _))
  have hopen := openSnapshot_of_ok (s := start unwritableTexts (.ofBytes emptyKeySnapshot)) hheader
  obtain ⟨s, hread, -, hphase⟩ :=
    readEntry_of_gives_refused rfl (phase_of_openSnapshot hopen) rfl hexcess.refuses hgives
  exact ⟨s, (next_of_fresh rfl hopen).trans hread, hphase⟩

end RedisDump
