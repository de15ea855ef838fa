import RedisDump.Proofs.Blind

/-!
# Envelopes that are not looked at

A packed value is captured in its envelope: the bytes of its container, or of the nodes of a list.
Where these are stored raw they are not looked at when a key is read. A key is blank when the bytes
of its envelope are taken away and only their numbers are left (`Entry.blank`), and reading an entry
over two strings that differ in such bytes alone gives entries that are the same when blank
(`ReadRecord.blind_entry`).
-/

namespace RedisDump

/-! ### Blank entries -/

/-- As many zeros as there are bytes. -/
def Bytes.blank (bs : Bytes) : Bytes :=
  List.replicate bs.length 0

theorem Bytes.blank_of_length {bs cs : Bytes} (h : bs.length = cs.length) :
    bs.blank = cs.blank := by
  rw [blank, blank, h]

/-- A packed value without the contents of its envelope. -/
def Packed.blank : Packed → Packed
  | zipmap data => zipmap data.blank
  | ziplist cutoff data => ziplist cutoff data.blank
  | scoredZiplist cutoff data => scoredZiplist cutoff data.blank
  | intset data => intset data.blank
  | listpack data => listpack data.blank
  | scoredListpack data => scoredListpack data.blank
  | quicklist cutoff ziplists => quicklist cutoff (ziplists.map Bytes.blank)
  | quicklist2 nodes => quicklist2 (nodes.map fun node => (node.1, node.2.blank))

/-- A list of elements without the contents of the envelope that they were captured in. -/
def Deferred.blank : Deferred Packed → Deferred Packed
  | realized captured elements attempts => realized (captured.map Packed.blank) elements attempts
  | pending captured attempts => pending captured.blank attempts

/-- An entry without the contents of its envelope. -/
def Entry.blank : Entry Packed → Entry Packed
  | keyValue fields values => keyValue fields values.blank
  | eof checksum => eof checksum
  | selectDb id => selectDb id
  | resizeDb size expireSize => resizeDb size expireSize
  | aux key value => aux key value

/-! ### Values -/

namespace Read

/-- The places that the strings of a counted sequence do not look at. -/
def textsPlaces (p : Profile) (collection : Collection) (i : Input) : Nat → Prop :=
  Behind i (count collection p.elementLimit)
    (collectPlaces (fun _ => text p.textLimit) (textPlaces p.textLimit))

/-- The places of the bytes of a node. -/
def nodePlaces (p : Profile) (i : Input) : Nat → Prop :=
  Behind i length fun _ => textPlaces p.textLimit

/-- The places of the bytes of the nodes of a list. -/
def nodesPlaces (p : Profile) (i : Input) : Nat → Prop :=
  Behind i (count .quicklists p.elementLimit) (collectPlaces (fun _ => node p) (nodePlaces p))

/-- The places of the bytes in the envelope of a value, as far as they are stored raw. A value that
is not packed has no envelope. -/
def envelopePlaces (p : Profile) : ValueKind → Input → Nat → Prop
  | .hashZipmap | .listZiplist | .setIntset | .sortedSetZiplist | .hashZiplist | .setListpack
  | .hashListpack | .sortedSetListpack => textPlaces p.textLimit
  | .listQuicklist => textsPlaces p .quicklists
  | .listQuicklist2 => nodesPlaces p
  | .string | .list | .set | .sortedSet | .sortedSet2 | .hash => fun _ => nowhere

variable {data data' : Bytes}

theorem blind_texts (hlen : data.length = data'.length) (p : Profile) (collection : Collection)
    (i : Input) : Blind (beside data data') i (texts p collection) (texts p collection)
      (textsPlaces p collection i) fun as as' => as.map List.length = as'.map List.length :=
  ((Bytewise.count collection p.elementLimit).blind hlen i).after fun n i' _ =>
    blind_collect (fun _ i => blind_text hlen p.textLimit i) n i'

theorem blind_node (hlen : data.length = data'.length) (p : Profile) (i : Input) :
    Blind (beside data data') i (node p) (node p) (nodePlaces p i)
      fun n n' => (n.1, n.2.length) = (n'.1, n'.2.length) :=
  (Bytewise.length.blind hlen i).after fun form i' _ =>
    (blind_text hlen p.textLimit i').map (fun _ => rfl) fun _ _ h => by rw [h]

theorem blind_nodes (hlen : data.length = data'.length) (p : Profile) (i : Input) :
    Blind (beside data data') i (nodes p) (nodes p) (nodesPlaces p i) fun ns ns' =>
      (ns.map fun n => (n.1, n.2.length)) = ns'.map fun n => (n.1, n.2.length) :=
  ((Bytewise.count .quicklists p.elementLimit).blind hlen i).after fun n i' _ =>
    blind_collect (fun _ i => blind_node hlen p i) n i'

/-- A container is captured without a look at it. -/
theorem blind_container (hlen : data.length = data'.length) (p : Profile) {pack : Bytes → Packed}
    (hpack : ∀ bs cs : Bytes, bs.length = cs.length → (pack bs).blank = (pack cs).blank)
    (i : Input) : Blind (beside data data') i (container p pack) (container p pack)
      (textPlaces p.textLimit i) fun d d' => d.blank = d'.blank :=
  (blind_text hlen p.textLimit i).map (fun _ => rfl) fun bs cs h =>
    congrArg (fun packed => Deferred.pending packed 0) (hpack bs cs h)

/-- **The envelope of a value is not looked at.** -/
theorem blind_value (hlen : data.length = data'.length) (p : Profile) (cutoff : Int)
    (kind : ValueKind) (i : Input) :
    Blind (beside data data') i (value p cutoff kind) (value p cutoff kind)
      (envelopePlaces p kind i) fun d d' => d.blank = d'.blank := by
  have heager (kind : ValueKind) : Blind (beside data data') i (value p cutoff kind)
      (value p cutoff kind) nowhere fun d d' => d.blank = d'.blank :=
    ((Bytewise.value p cutoff kind).blind hlen i).alike fun _ _ h => congrArg Deferred.blank h
  cases kind with
  | string | list | set | sortedSet | sortedSet2 | hash => exact heager _
  | hashZipmap | listZiplist | setIntset | sortedSetZiplist | hashZiplist | setListpack
  | hashListpack | sortedSetListpack =>
    refine blind_container hlen p (fun bs cs h => ?_) i
    simp only [Packed.blank, Bytes.blank_of_length h]
  | listQuicklist =>
    refine (blind_texts hlen p .quicklists i).map (fun _ => rfl) fun as as' h => ?_
    have hmap : as.map Bytes.blank = as'.map Bytes.blank := by
      have hfun : Bytes.blank = (fun n => List.replicate n 0) ∘ List.length := rfl
      rw [hfun, ← List.map_map, h, List.map_map]
    simp only [Deferred.capture, Deferred.blank, Packed.blank, hmap]
  | listQuicklist2 =>
    refine (blind_nodes hlen p i).map (fun _ => rfl) fun ns ns' h => ?_
    have hmap : (ns.map fun n => (n.1, n.2.blank)) = ns'.map fun n => (n.1, n.2.blank) := by
      have hfun : (fun n : Quicklist.Node => (n.1, n.2.blank)) =
          (fun m : Int × Nat => (m.1, List.replicate m.2 0)) ∘ fun n => (n.1, n.2.length) := rfl
      rw [hfun, ← List.map_map, h, List.map_map]
    simp only [Deferred.capture, Deferred.blank, Packed.blank, hmap]

end Read

/-! ### Records -/

/-- Two strings of the same length in memory, of which records are read. -/
def besideRecords (data data' : Bytes) : SideBySide Intake where
  place s := s.input.consumed
  near s t := Input.Abreast data data' s.input t.input ∧ s.notes = t.notes
  agree k := data[k]? = data'[k]?

namespace ReadRecord

/-- The places of the bytes in the envelope of a key. -/
def keyPlaces (p : Profile) (kind : ValueKind) (s : Intake) : Nat → Prop :=
  Behind s (fromInput (Read.text p.textLimit)) fun _ s => Read.envelopePlaces p kind s.input

/-- The places of the bytes in an envelope behind the byte that a record starts with. -/
def placesBehind (p : Profile) (version : Nat) (b : UInt8) (s : Intake) : Nat → Prop :=
  match Opcode.ofByte? b, ValueCode.ofByte? b with
  | none, some (.known kind) => Behind s (gate p version (.value kind)) fun _ => keyPlaces p kind
  | _, _ => nowhere

/-- The places of the bytes in the envelope of a record. -/
def recordPlaces (p : Profile) (version : Nat) (s : Intake) : Nat → Prop :=
  Behind s (fromInput Read.byte) (placesBehind p version)

/-- The places of the bytes in the envelope of the next entry: those of its own record, behind the
metadata of the key. -/
inductive EntryPlaces (p : Profile) (version : Nat) : Intake → Nat → Prop where
  | own {s : Intake} {k : Nat} : recordPlaces p version s k → EntryPlaces p version s k
  | noted {s s' : Intake} {k : Nat} : record p version s = .ok none s' →
    EntryPlaces p version s' k → EntryPlaces p version s k

end ReadRecord

variable {data data' : Bytes}

theorem blind_fromInput {α : Type} {r r' : Read α} {V : Nat → Prop} {R : α → α → Prop} {s : Intake}
    (h : Blind (beside data data') s.input r r' V R) :
    Blind (besideRecords data data') s (ReadRecord.fromInput r) (ReadRecord.fromInput r') V R where
  grows := by
    have hg := h.grows
    unfold ReadRecord.fromInput
    generalize r s.input = x at hg
    cases x <;> exact hg
  lower := h.lower
  upper := by
    intro a s' hr
    unfold ReadRecord.fromInput at hr
    split at hr
    · rename_i hri
      cases hr
      exact h.upper a _ hri
    · cases hr
  follows := by
    rintro t ⟨hst, hn⟩ hagree
    have hm := h.follows t.input hst fun k hlo hhi hk => hagree k hlo (by
      unfold ReadRecord.fromInput
      generalize r s.input = x at hhi
      cases x <;> exact hhi) hk
    unfold ReadRecord.fromInput
    generalize r s.input = x, r' t.input = y at hm
    cases hm with
    | ok ha hij => exact .ok ha ⟨hij, hn⟩
    | error hij => exact .error ⟨hij, hn⟩

/-- **A recordwise reader is blind to nothing.** -/
theorem Recordwise.blind (hlen : data.length = data'.length) {α : Type} {r : ReadRecord α}
    (h : Recordwise r) (s : Intake) : Blind (besideRecords data data') s r r nowhere Eq := by
  induction h generalizing s with
  | input h => exact blind_fromInput (h.blind hlen s.input)
  | pure a => exact .pure rfl
  | throw _ => exact .throw _
  | consult _ ih =>
    have hf := ih s.notes s
    refine ⟨hf.grows, hf.lower, hf.upper, fun t ht hagree => ?_⟩
    rw [← ht.2]
    exact hf.follows t ht hagree
  | amend f =>
    refine ⟨Nat.le_refl _, by rintro k ⟨⟩, by rintro _ _ _ k ⟨⟩, fun t ht _ => ?_⟩
    exact .ok rfl ⟨ht.1, congrArg f ht.2⟩
  | bind _ _ ihr ihf => exact (ihr s).seq ihf

namespace ReadRecord

/-- A key with the notes before it, as its value is known. -/
theorem blind_noteValue (key : Bytes) (kind : ValueKind) {d d' : Deferred Packed}
    (h : d.blank = d'.blank) (s : Intake) :
    Blind (besideRecords data data') s
      (do
        let notes := (← get).notes
        modify fun s => { s with notes := {} }
        return Entry.keyValue (notes.fields key kind) d)
      (do
        let notes := (← get).notes
        modify fun s => { s with notes := {} }
        return Entry.keyValue (notes.fields key kind) d')
      nowhere fun e e' => e.blank = e'.blank where
  grows := Nat.le_refl _
  lower := by rintro k ⟨⟩
  upper := by rintro _ _ _ k ⟨⟩
  follows := by
    rintro t ⟨hst, hn⟩ _
    refine .ok ?_ ⟨hst, rfl⟩
    simp only [Entry.blank, h]
    exact congrArg (fun notes : KeyNotes => Entry.keyValue (notes.fields key kind) d'.blank) hn

theorem blind_keyValue (hlen : data.length = data'.length) (p : Profile) (version : Nat)
    (kind : ValueKind) (s : Intake) :
    Blind (besideRecords data data') s (keyValue p version kind) (keyValue p version kind)
      (keyPlaces p kind s) fun e e' => e.blank = e'.blank := by
  refine ((Recordwise.input (.text p.textLimit)).blind hlen s).after fun key s' _ => ?_
  have hvalue := blind_fromInput (Read.blind_value hlen p (p.cutoffFor version) kind s'.input)
  exact (hvalue.bind (T := fun _ _ => nowhere) (fun _ => rfl) fun d d' s'' _ h =>
    blind_noteValue key kind h s'').within fun _ => Or.inl

theorem blind_keyRecord (hlen : data.length = data'.length) (p : Profile) (version : Nat)
    {b : UInt8} (hb : Opcode.ofByte? b = none) (s : Intake) :
    Blind (besideRecords data data') s (keyRecord p version b) (keyRecord p version b)
      (placesBehind p version b s) fun e e' => e.blank = e'.blank := by
  unfold keyRecord placesBehind
  rw [hb]
  cases ValueCode.ofByte? b with
  | none => exact .throw _
  | some code => cases code with
    | refused kind => exact .throw _
    | known kind =>
      exact ((Recordwise.gate p version _).blind hlen s).after fun _ s' _ =>
        blind_keyValue hlen p version kind s'

/-- **The envelope in a record is not looked at.** -/
theorem blind_record (hlen : data.length = data'.length) (p : Profile) (version : Nat)
    (s : Intake) :
    Blind (besideRecords data data') s (record p version) (record p version)
      (recordPlaces p version s) fun o o' => o.map Entry.blank = o'.map Entry.blank := by
  refine ((Recordwise.input .byte).blind hlen s).after fun b s' _ => ?_
  cases hb : Opcode.ofByte? b with
  | some op =>
    have hnone : placesBehind p version b s' = nowhere := by
      unfold placesBehind
      rw [hb]
    rw [hnone]
    exact ((Recordwise.bind (.gate p version _) fun _ => .opcodeBody p version op).blind hlen
      s').alike fun _ _ h => congrArg (Option.map Entry.blank) h
  | none =>
    exact (blind_keyRecord hlen p version hb s').map (fun _ => rfl) fun _ _ h => congrArg some h

/-- An entry is the first record that is one. -/
theorem entry_eq_bind (p : Profile) (version : Nat) :
    entry p version = record p version >>= fun o =>
      match o with
      | some e => pure e
      | none => entry p version := by
  funext s
  cases hr : record p version s with
  | error e s' => rw [entry_of_error hr, bind_of_error hr]
  | ok o s' => cases o with
    | some e =>
      rw [entry_of_some hr, bind_of_ok hr]
      rfl
    | none => rw [entry_of_none hr, bind_of_ok hr]

/-- **The envelope of an entry is not looked at.** -/
theorem blind_entry (hlen : data.length = data'.length) (p : Profile) (version : Nat) (s : Intake) :
    Blind (besideRecords data data') s (entry p version) (entry p version)
      (EntryPlaces p version s) fun e e' => e.blank = e'.blank := by
  induction hn : s.remaining using Nat.strongRecOn generalizing s with
  | ind n ih =>
    subst hn
    let after (o : Option (Entry Packed)) (s : Intake) : Nat → Prop :=
      match o with
      | some _ => nowhere
      | none => EntryPlaces p version s
    rw [entry_eq_bind]
    refine ((blind_record hlen p version s).bind (T := after) (fun _ => rfl)
      fun o o' s' hr ho => ?_).within ?_
    · cases o with
      | some e => cases o' with
        | some e' => exact .pure (Option.some.inj ho)
        | none => cases ho
      | none => cases o' with
        | some e' => cases ho
        | none => exact ih s'.remaining (record_eager p version s none s' hr) s' rfl
    · intro k hk
      cases hk with
      | own hk => exact .inl hk
      | noted hr hk => exact .inr ⟨none, _, hr, hk⟩

end ReadRecord

end RedisDump
