import Mathlib.Data.List.Forall2
import RedisDump.Proofs.Packed.Intset
import RedisDump.Proofs.Packed.Listpack
import RedisDump.Proofs.Packed.Zipmap
import RedisDump.Proofs.Packed.Ziplist
import RedisDump.Proofs.Scores
import RedisDump.Proofs.Wire.Snapshot

/-!
# One value in many forms

A list, a set of integers, a hash or a sorted set can be stored element by element, in one packed
container, or, if it is a list, split into nodes (`Datum.Stored`). Its elements are read as the same
texts from every form (`Datum.Stored.force`), so a snapshot answers the same for the key wherever
the forms differ (`Session.values_of_stored`).
-/

namespace RedisDump

/-! ### Values apart from their forms -/

/-- A score that can be stored in every form of a sorted set: a special one, or the text of another
one, of at most 252 bytes. -/
inductive Score.Value where
  | plain (text : Bytes) (short : text.length < 0xFD) (ordinary : ∀ x, ¬ Score.Spells x text)
  | special (x : Score.Special)

namespace Score.Value

/-- The text in which a score is handed out. -/
def text : Score.Value → Bytes
  | plain text _ _ => text
  | special x => x.text

/-- The texts in which a score may stand in a packed sorted set. -/
inductive Written : Score.Value → Bytes → Prop where
  | plain {text : Bytes} (short : text.length < 0xFD) (ordinary : ∀ x, ¬ Score.Spells x text) :
    Written (.plain text short ordinary) text
  | special {x : Score.Special} {text : Bytes} : Score.Spells x text → Written (.special x) text

theorem Written.canonical {v : Score.Value} {text : Bytes} (h : Written v text) :
    Score.canonical text = v.text := by
  cases h with
  | plain short ordinary => exact Score.canonical_of_not_spells ordinary
  | special h => exact Score.canonical_of_spells h

end Score.Value

/-- What a key holds, whatever the form in which it is stored. -/
inductive Datum where
  | list (elements : List Bytes)
  | set (members : List Int)
  | hash (fields : List (Bytes × Bytes))
  | sortedSet (members : List (Bytes × Score.Value))

namespace Datum

/-- The elements in which a value is handed out. -/
def elements : Datum → List Bytes
  | list xs => xs
  | set zs => zs.map Bytes.decimal
  | hash fs => Bytes.flattenPairs fs
  | sortedSet ms => Bytes.flattenPairs (ms.map fun m => (m.1, m.2.text))

/-! ### Forms of a value -/

/-- The nodes that hold elements of a list: a listpack of any number of them, or a single one. -/
inductive NodeForm : List Bytes → Nat × Bytes → Prop where
  | packed {xs : List Bytes} {data : Bytes} : Listpack.Form xs data → NodeForm xs (2, data)
  | plain (x : Bytes) : NodeForm [x] (1, x)

/-- Members with scores, and the flat list of them in a packed sorted set. -/
def WrittenMembers (ms : List (Bytes × Score.Value)) (xs : List Bytes) : Prop :=
  ∃ ts, List.Forall₂ (fun m t => m.1 = t.1 ∧ m.2.Written t.2) ms ts ∧ xs = Bytes.flattenPairs ts

/-- The forms in which a value may be stored where `cutoff` is the one of the ziplists. -/
inductive Stored (cutoff : Int) : Datum → Content → Prop where
  | list (xs : List Bytes) : Stored cutoff (.list xs) (.list xs)
  | listZiplist {xs : List Bytes} {data : Bytes} : Ziplist.Form cutoff xs data →
    Stored cutoff (.list xs) (.container .listZiplist data)
  | listQuicklist {parts : List (List Bytes)} {ziplists : List Bytes} :
    List.Forall₂ (Ziplist.Form cutoff) parts ziplists →
      Stored cutoff (.list parts.flatten) (.quicklist ziplists)
  | listQuicklist2 {parts : List (List Bytes)} {nodes : List (Nat × Bytes)} :
    List.Forall₂ NodeForm parts nodes → Stored cutoff (.list parts.flatten) (.quicklist2 nodes)
  | set (zs : List Int) : Stored cutoff (.set zs) (.set (zs.map Bytes.decimal))
  | setIntset {zs : List Int} {data : Bytes} : Intset.Form zs data →
    Stored cutoff (.set zs) (.container .setIntset data)
  | setListpack {zs : List Int} {data : Bytes} : Listpack.Form (zs.map Bytes.decimal) data →
    Stored cutoff (.set zs) (.container .setListpack data)
  | hash (fs : List (Bytes × Bytes)) : Stored cutoff (.hash fs) (.hash fs)
  | hashZipmap {fs : List (Bytes × Bytes)} {data : Bytes} : Zipmap.Form fs data →
    Stored cutoff (.hash fs) (.container .hashZipmap data)
  | hashZiplist {fs : List (Bytes × Bytes)} {data : Bytes} :
    Ziplist.Form cutoff (Bytes.flattenPairs fs) data →
      Stored cutoff (.hash fs) (.container .hashZiplist data)
  | hashListpack {fs : List (Bytes × Bytes)} {data : Bytes} :
    Listpack.Form (Bytes.flattenPairs fs) data →
      Stored cutoff (.hash fs) (.container .hashListpack data)
  | sortedSet (ms : List (Bytes × Score.Value)) :
    Stored cutoff (.sortedSet ms) (.sortedSet (ms.map fun m => (m.1, m.2.text)))
  | sortedSetZiplist {ms : List (Bytes × Score.Value)} {xs : List Bytes} {data : Bytes} :
    WrittenMembers ms xs → Ziplist.Form cutoff xs data →
      Stored cutoff (.sortedSet ms) (.container .sortedSetZiplist data)
  | sortedSetListpack {ms : List (Bytes × Score.Value)} {xs : List Bytes} {data : Bytes} :
    WrittenMembers ms xs → Listpack.Form xs data →
      Stored cutoff (.sortedSet ms) (.container .sortedSetListpack data)

/-! ### What is read -/

/-- Things that are each answered in turn are answered together. -/
theorem mapM_eq_ok_of_forall₂ {α β ε : Type} {f : α → Except ε β} {bs : List β} {as : List α}
    (h : List.Forall₂ (fun b a => f a = .ok b) bs as) : as.mapM f = .ok bs := by
  induction h with
  | nil => rfl
  | cons h _ ih =>
    rw [List.mapM_cons, h, ih]
    rfl

theorem decodeNode_of_form {xs : List Bytes} {node : Nat × Bytes} (h : NodeForm xs node) :
    Quicklist.decodeNode (Int.ofNat node.1, node.2) = .ok xs := by
  cases h with
  | packed h => exact Listpack.decode_eq_ok_iff.mpr h
  | plain x => rfl

theorem canonicalise_of_written {ms : List (Bytes × Score.Value)} {xs : List Bytes}
    (h : WrittenMembers ms xs) :
    Score.canonicalise xs = Bytes.flattenPairs (ms.map fun m => (m.1, m.2.text)) := by
  obtain ⟨ts, hts, rfl⟩ := h
  rw [Score.canonicalise_flattenPairs]
  congr 1
  induction hts with
  | nil => rfl
  | cons ht _ ih =>
    rw [List.map_cons, List.map_cons, ih, ht.1, ht.2.canonical]

/-- **The elements are the same in every form.** -/
theorem Stored.force {cutoff : Int} {d : Datum} {c : Content} (h : Stored cutoff d c) :
    (c.values cutoff).force.1 = .ok d.elements := by
  have hcapture {packed : Packed} {xs : List Bytes} (hp : packed.decode = .ok xs) :
      (Deferred.capture packed).force.1 = .ok xs := by
    have hattempt : Decodable.attempt packed 0 = .ok xs := hp
    simp only [Deferred.capture, Deferred.force, hattempt]
  cases h with
  | list xs => rfl
  | listZiplist h => exact hcapture (Ziplist.decode_eq_ok_iff.mpr h)
  | @listQuicklist parts ziplists h =>
    have hm : ziplists.mapM (Ziplist.decode cutoff) = .ok parts :=
      mapM_eq_ok_of_forall₂ (h.imp fun _ _ h => Ziplist.decode_eq_ok_iff.mpr h)
    refine hcapture ?_
    rw [Packed.decode, Quicklist.decode, hm]
    rfl
  | @listQuicklist2 parts nodes h =>
    have hm : (nodes.map fun n => (Int.ofNat n.1, n.2)).mapM Quicklist.decodeNode = .ok parts := by
      refine mapM_eq_ok_of_forall₂ (List.forall₂_map_right_iff.mpr ?_)
      exact h.imp fun _ _ h => decodeNode_of_form h
    refine hcapture ?_
    rw [Packed.decode, Quicklist.decodeNodes, hm]
    rfl
  | set zs => rfl
  | setIntset h => exact hcapture (Intset.decode_eq_ok_iff.mpr ⟨_, h, rfl⟩)
  | setListpack h => exact hcapture (Listpack.decode_eq_ok_iff.mpr h)
  | hash fs => rfl
  | hashZipmap h => exact hcapture (Zipmap.decode_eq_ok_iff.mpr ⟨_, h, rfl⟩)
  | hashZiplist h => exact hcapture (Ziplist.decode_eq_ok_iff.mpr h)
  | hashListpack h => exact hcapture (Listpack.decode_eq_ok_iff.mpr h)
  | sortedSet ms => rfl
  | @sortedSetZiplist ms xs data hw h =>
    have hd : (Packed.scoredZiplist cutoff data).decode = .ok (Score.canonicalise xs) :=
      congrArg (Except.map Score.canonicalise) (Ziplist.decode_eq_ok_iff.mpr h)
    rw [canonicalise_of_written hw] at hd
    exact hcapture hd
  | @sortedSetListpack ms xs data hw h =>
    have hd : (Packed.scoredListpack data).decode = .ok (Score.canonicalise xs) :=
      congrArg (Except.map Score.canonicalise) (Listpack.decode_eq_ok_iff.mpr h)
    rw [canonicalise_of_written hw] at hd
    exact hcapture hd

end Datum

namespace Session

variable {p : Profile} {version : Nat}

/-- The elements of the key at a place among the entries, when all are decoded. -/
theorem getElem?_forceAll {s : Session} {i : Nat} {fields : KeyFields} {values : Deferred Packed}
    {xs : List Bytes} (hi : s.entries[i]? = some (.keyValue fields values))
    (hxs : values.force.1 = .ok xs) : s.forceAll.1[i]? = some (some (.ok xs)) := by
  have hforce : (Entry.keyValue fields values).forceValues.1 = some (.ok xs) := by
    rw [← hxs]
    rfl
  simp [forceAll, hi, hforce]

/-- **A key is answered the same whatever the form of its value.** Between any other records of a
snapshot, and with any marks, its elements are those of the value that is stored. -/
theorem values_of_stored {before after : List Record} {marks : List Mark} {name : Bytes}
    {d : Datum} {c : Content} {checksum bs : Bytes} {source : Source}
    (hmin : p.minVersion ≤ version) (hmax : version ≤ p.maxVersion)
    (h : Wire.Snapshot p version (before ++ .key marks name c :: after) checksum bs)
    (hc : Datum.Stored (p.cutoffFor version) d c) (trailing : Bytes)
    (hsource : source.Delivers (bs ++ trailing) p.bufferSize) :
    ∃ s, (start p source).drain none = (.finished, s) ∧
      s.entries[before.length]? = some (.keyValue (Record.keyFields marks name c.kind)
        (c.values (p.cutoffFor version))) ∧
      s.forceAll.1[before.length]? = some (some (.ok d.elements)) := by
  obtain @⟨body, stored, hrecords, hchecksum⟩ := h
  have hsource' : source.Delivers (Read.fixedLetters ++ Wire.versionField version ++
      (body ++ (Opcode.eof.code :: stored ++ trailing))) p.bufferSize := by
    simpa only [List.append_assoc] using hsource
  obtain ⟨s₁, hd₁, hs₁, he₁⟩ := drain_header hmin hmax hsource'
  obtain ⟨s₂, hd₂, hs₂, he₂⟩ := drain_records hrecords hs₁
  obtain ⟨s₃, hd₃, -, -, he₃⟩ := drain_end hmin hchecksum hs₂
  have hentry : s₃.entries[before.length]? = some (.keyValue (Record.keyFields marks name c.kind)
      (c.values (p.cutoffFor version))) := by
    rw [← Array.getElem?_toList, he₃, he₂, he₁]
    simp [Record.entry]
  exact ⟨s₃, hd₁.trans (hd₂.trans hd₃), hentry, getElem?_forceAll hentry hc.force⟩

/-- The members `a`, with the score minus infinity, and `b`, with the score 5. -/
def scoredMembers : List (Bytes × Score.Value) :=
  [([0x61], .special .negativeInfinity),
    ([0x62], .plain [0x35] (by decide) fun x => by cases x <;> decide)]

/-- A listpack of the two members, in which the first score is spelled `-INF` and the second one is
an integer. -/
def scoredListpack : Bytes :=
  [0, 0, 0, 0, 4, 0] ++ ([0x81, 0x61, 2] ++ ([0x84, 0x2D, 0x49, 0x4E, 0x46, 5] ++
    ([0x81, 0x62, 2] ++ ([5, 1] ++ [])))) ++ [0xFF]

theorem scoredListpack_stored (cutoff : Int) :
    Datum.Stored cutoff (.sortedSet scoredMembers)
      (.container .sortedSetListpack scoredListpack) := by
  have ha : Listpack.ElementForm [0x61] ([0x81, 0x61] ++ [2]) := .intro (.six (by decide)) rfl
  have hinf : Listpack.ElementForm [0x2D, 0x49, 0x4E, 0x46] ([0x84, 0x2D, 0x49, 0x4E, 0x46] ++ [5]) :=
    .intro (.six (by decide)) rfl
  have hb : Listpack.ElementForm [0x62] ([0x81, 0x62] ++ [2]) := .intro (.six (by decide)) rfl
  have hfive : Listpack.ElementForm (Bytes.decimal 5) ([5] ++ [1]) :=
    .intro (.integer (@Listpack.IntegerForm.seven 5 (by decide))) rfl
  have hform : Scan.ElementsForm Listpack.leadingBytes Listpack.uncounted Listpack.ElementForm
      [[0x61], [0x2D, 0x49, 0x4E, 0x46], [0x62], Bytes.decimal 5] true _ :=
    @Scan.ElementsForm.counted _ _ _ _ _ [0, 0, 0, 0] _ rfl (by decide)
      (.cons ha (.cons hinf (.cons hb (.cons hfive .nil))))
  have hwritten : Datum.WrittenMembers scoredMembers
      [[0x61], [0x2D, 0x49, 0x4E, 0x46], [0x62], Bytes.decimal 5] :=
    ⟨[([0x61], [0x2D, 0x49, 0x4E, 0x46]), ([0x62], [0x35])],
      .cons ⟨rfl, .special (by decide)⟩ (.cons ⟨rfl, .plain _ _⟩ .nil), rfl⟩
  exact .sortedSetListpack hwritten (.intro [] hform)

/-- The sorted set behind the selection of a database, with a byte behind the snapshot. -/
theorem values_of_stored_scoredListpack :
    ∃ s, (start .standard (.ofBytes (Read.fixedLetters ++ (Wire.versionField 11 ++
        ([0xFE, 3] ++ ([17, 1, 0x6B, 21] ++ scoredListpack) ++
          Opcode.eof.code :: List.replicate checksumWidth 0)) ++ [7]))).drain none = (.finished, s) ∧
      s.entries[1]? = some (.keyValue { key := [0x6B], kind := .sortedSetListpack }
        (.capture (.scoredListpack scoredListpack))) ∧
      s.forceAll.1[1]? = some (some (.ok [[0x61], Bytes.ofAscii "-inf", [0x62], [0x35]])) := by
  have hselect : Wire.RecordForm .standard 11 (.selectDb 3) [0xFE, 3] :=
    .selectDb rfl (.six (by decide))
  have hname : Wire.Text Profile.standard.textLimit [0x6B] [1, 0x6B] :=
    .raw (by decide) (.six (by decide))
  have hvalue : Wire.Value .standard (.container .sortedSetListpack scoredListpack)
      ([21] ++ scoredListpack) := @Wire.Text.raw _ scoredListpack [21] (by decide) (.six (by decide))
  have hkey : Wire.RecordForm .standard 11
      (.key [] [0x6B] (.container .sortedSetListpack scoredListpack))
      (ValueKind.sortedSetListpack.code :: ([1, 0x6B] ++ ([21] ++ scoredListpack))) :=
    .key .nil rfl hname hvalue
  have hrecords : Wire.Sequence (Wire.RecordForm .standard 11)
      ([.selectDb 3] ++ .key [] [0x6B] (.container .sortedSetListpack scoredListpack) :: [])
      ([0xFE, 3] ++ (([17, 1, 0x6B, 21] ++ scoredListpack) ++ [])) :=
    .cons hselect (.cons hkey .nil)
  rw [List.append_nil] at hrecords
  exact values_of_stored (by decide) (by decide) (.intro hrecords (.stored (by decide) rfl))
    (scoredListpack_stored _) [7] (.contents (by decide))

end Session

end RedisDump
