import RedisDump.Proofs.Outcome.Sessions
import RedisDump.Proofs.Wire.Snapshot

/-!
# Keys with their values, members with their scores

The flat list of a paired value has an even number of elements where the value is read or walked
pair by pair. A ziplist or listpack is walked element by element instead, and nothing compares its
number of elements with a number of pairs: the list has as many as the container says that it
holds, be that an even number or an odd one (`length_of_isPaired`). A hash whose last key has no
value is therefore delivered like any other (`exists_unpaired`).
-/

namespace RedisDump

theorem Bytes.length_flattenPairs (pairs : List (Bytes × Bytes)) :
    (Bytes.flattenPairs pairs).length = 2 * pairs.length := by
  simp only [Bytes.flattenPairs, List.length_flatMap, List.length_cons, List.length_nil,
    List.map_const', List.sum_replicate_nat]
  omega

/-! ### Counted containers -/

namespace Scan

theorem take_eq_ok {n : Nat} {s s' : Scanner} {bs : Bytes} (h : take n s = .ok bs s') :
    bs = s.rest.take n ∧ s'.rest = s.rest.drop n := by
  unfold take at h
  dsimp only at h
  split at h
  · cases h
  · cases h
    exact ⟨rfl, rfl⟩

theorem skip_eq_ok {n : Nat} {s s' : Scanner} (h : skip n s = .ok () s') :
    s'.rest = s.rest.drop n := by
  obtain ⟨bs, s₁, ht, hs⟩ := bind_eq_ok h
  cases hs
  exact (take_eq_ok ht).2

theorem littleEndian_eq_ok {width n : Nat} {s s' : Scanner} (h : littleEndian width s = .ok n s') :
    n = Bytes.leNat (s.rest.take width) := by
  obtain ⟨bs, s₁, ht, hs⟩ := bind_eq_ok h
  cases hs
  rw [(take_eq_ok ht).1]

theorem length_of_collect {α : Type} {item : Nat → Scan α} {n : Nat} {s s' : Scanner}
    {as : List α} (h : collect item n s = .ok as s') : as.length = n := by
  have hend := Ensures.collect_length (fun k => .anything (item k)) n s trivial
  rw [h] at hend
  exact hend.of_ok.1

theorem decode_eq_ok {α : Type} {container : String} {r : Scan α} {data : Bytes} {a : α}
    (h : decode container r data = .ok a) : ∃ s, r (Scanner.start container data) = .ok a s := by
  unfold decode at h
  split at h
  · rename_i hr
    cases h
    exact ⟨_, hr⟩
  · cases h

end Scan

/-- The number that stands in two bytes behind `leading` other ones, unless it is `uncounted`,
which says nothing. -/
def storedCount? (leading uncounted : Nat) (data : Bytes) : Option Nat :=
  let n := Bytes.leNat ((data.drop leading).take 2)
  if n < uncounted then some n else none

/-- A container that says how many elements it holds gives as many. -/
theorem length_of_storedCount {leading uncounted n : Nat} {item : Scan Bytes}
    {walk : Scan (List Bytes)} {s s' : Scanner} {xs : List Bytes}
    (hn : storedCount? leading uncounted s.rest = some n)
    (h : (do
      Scan.skip leading
      let count ← Scan.littleEndian 2
      if count < uncounted then collect (fun _ => item) count else walk : Scan (List Bytes)) s =
        .ok xs s') : xs.length = n := by
  obtain ⟨_, s₁, hskip, h⟩ := bind_eq_ok h
  obtain ⟨count, s₂, hcount, h⟩ := bind_eq_ok h
  have hc := Scan.littleEndian_eq_ok hcount
  rw [Scan.skip_eq_ok hskip] at hc
  simp only [storedCount?, ← hc] at hn
  split at hn
  · rename_i hlt
    rw [if_pos hlt] at h
    cases hn
    exact Scan.length_of_collect h
  · cases hn

theorem Ziplist.length_of_decode {cutoff : Int} {data : Bytes} {xs : List Bytes} {n : Nat}
    (hn : storedCount? leadingBytes uncounted data = some n) (h : decode cutoff data = .ok xs) :
    xs.length = n := by
  obtain ⟨s, hr⟩ := Scan.decode_eq_ok h
  exact length_of_storedCount (s := Scanner.start "ziplist" data) hn hr

theorem Listpack.length_of_decode {data : Bytes} {xs : List Bytes} {n : Nat}
    (hn : storedCount? leadingBytes uncounted data = some n) (h : decode data = .ok xs) :
    xs.length = n := by
  obtain ⟨s, hr⟩ := Scan.decode_eq_ok h
  obtain ⟨values, s₁, hbody, hrest⟩ := bind_eq_ok hr
  obtain ⟨_, s₂, -, hpure⟩ := bind_eq_ok hrest
  cases hpure
  exact length_of_storedCount (s := Scanner.start "listpack" data) hn hbody

theorem exists_of_map_ok {α β ε : Type} {x : Except ε α} {f : α → β} {b : β}
    (h : x.map f = .ok b) : ∃ a, x = .ok a ∧ f a = b := by
  cases x with
  | error e => cases h
  | ok a =>
    cases h
    exact ⟨a, rfl, rfl⟩

namespace Packed

/-- The number of elements that a ziplist or listpack says it holds. -/
def storedCount? : Packed → Option Nat
  | ziplist _ data | scoredZiplist _ data =>
    RedisDump.storedCount? Ziplist.leadingBytes Ziplist.uncounted data
  | listpack data | scoredListpack data =>
    RedisDump.storedCount? Listpack.leadingBytes Listpack.uncounted data
  | zipmap _ | intset _ | quicklist .. | quicklist2 _ => none

theorem length_of_decode {packed : Packed} {xs : List Bytes} {n : Nat}
    (hn : packed.storedCount? = some n) (h : packed.decode = .ok xs) : xs.length = n := by
  cases packed with
  | ziplist cutoff data => exact Ziplist.length_of_decode hn h
  | scoredZiplist cutoff data =>
    obtain ⟨ys, hy, rfl⟩ := exists_of_map_ok h
    rw [Score.length_canonicalise]
    exact Ziplist.length_of_decode hn hy
  | listpack data => exact Listpack.length_of_decode hn h
  | scoredListpack data =>
    obtain ⟨ys, hy, rfl⟩ := exists_of_map_ok h
    rw [Score.length_canonicalise]
    exact Listpack.length_of_decode hn hy
  | zipmap | intset | quicklist | quicklist2 => cases hn

theorem even_of_decode_zipmap {data : Bytes} {xs : List Bytes}
    (h : (zipmap data).decode = .ok xs) : 2 ∣ xs.length := by
  obtain ⟨pairs, -, rfl⟩ := exists_of_map_ok h
  rw [Bytes.length_flattenPairs]
  exact Nat.dvd_mul_right 2 _

end Packed

/-! ### Paired values -/

/-- Whether a paired value is read or walked pair by pair. -/
def ValueKind.isPairwise : ValueKind → Bool
  | sortedSet | sortedSet2 | hash | hashZipmap => true
  | _ => false

/-- What is ensured of the elements `xs` of a paired value of a kind. -/
structure PairedAsStored (kind : ValueKind) (captured? : Option Packed) (xs : List Bytes) :
    Prop where
  /-- They are paired if they are read pair by pair. -/
  even : kind.isPairwise = true → 2 ∣ xs.length
  /-- Otherwise there are as many as a container says that it holds. -/
  length : kind.isPairwise = false → ∃ packed, captured? = some packed ∧
    ∀ n, packed.storedCount? = some n → xs.length = n

namespace Content

/-- A container that is not walked pair by pair. -/
theorem pairedAsStored_of_capture {kind : ValueKind} {values : Deferred Packed} {packed : Packed}
    {xs : List Bytes} (h : values.SameAnswer (.capture packed)) (hkind : kind.isPairwise = false)
    (hxs : values.force.1 = .ok xs) : PairedAsStored kind values.captured? xs where
  even := by
    intro hk
    rw [hkind] at hk
    cases hk
  length := by
    intro _
    obtain ⟨hc, hf⟩ := h.of_capture
    exact ⟨packed, hc, fun n hn => Packed.length_of_decode hn (hf.symm.trans hxs)⟩

/-- Pairs that were read one by one. -/
theorem pairedAsStored_of_pairs {kind : ValueKind} {values : Deferred Packed}
    {pairs : List (Bytes × Bytes)} {xs : List Bytes}
    (h : values.SameAnswer (.ofElements (Bytes.flattenPairs pairs)))
    (hkind : kind.isPairwise = true) (hxs : values.force.1 = .ok xs) :
    PairedAsStored kind values.captured? xs where
  even := by
    intro _
    have hp : Except.ok (Bytes.flattenPairs pairs) = (.ok xs : Except PackedError _) :=
      h.answer.symm.trans hxs
    cases hp
    rw [Bytes.length_flattenPairs]
    exact Nat.dvd_mul_right 2 _
  length := by
    intro hk
    rw [hkind] at hk
    cases hk

theorem pairedAsStored {c : Content} {cutoff : Int} {values : Deferred Packed} {xs : List Bytes}
    (hpaired : c.kind.isPaired = true) (h : values.SameAnswer (c.values cutoff))
    (hxs : values.force.1 = .ok xs) : PairedAsStored c.kind values.captured? xs := by
  cases c with
  | string | list | set | quicklist | quicklist2 => cases hpaired
  | sortedSet ms => exact pairedAsStored_of_pairs h rfl hxs
  | sortedSet2 ms => exact pairedAsStored_of_pairs h rfl hxs
  | hash fs => exact pairedAsStored_of_pairs h rfl hxs
  | container form data =>
    cases form with
    | listZiplist | setIntset | setListpack => cases hpaired
    | sortedSetZiplist | hashZiplist | hashListpack | sortedSetListpack =>
      exact pairedAsStored_of_capture h rfl hxs
    | hashZipmap =>
      have hf := (Deferred.SameAnswer.of_capture h).2
      exact ⟨fun _ => Packed.even_of_decode_zipmap (hf.symm.trans hxs), nofun⟩

end Content

theorem Entry.Genuine.pairedAsStored {p : Profile} {fields : KeyFields} {values : Deferred Packed}
    {xs : List Bytes} (h : Genuine p (.keyValue fields values))
    (hpaired : fields.kind.isPaired = true) (hxs : values.force.1 = .ok xs) :
    PairedAsStored fields.kind values.captured? xs := by
  obtain ⟨version, e₀, -, -, hread, hr⟩ := h
  cases hr with
  | refl =>
    cases hread with
    | keyValue c hc =>
      rw [← hc] at hpaired ⊢
      exact Content.pairedAsStored hpaired (.refl _) hxs
  | keyValue hs =>
    cases hread with
    | keyValue c hc =>
      rw [← hc] at hpaired ⊢
      exact Content.pairedAsStored hpaired hs hxs

namespace Session

/-- The first entry of a snapshot is the one delivered when it has been read. -/
theorem entries_run_next {p : Profile} {version : Nat} {bs rest : Bytes} {e : Entry Packed}
    {source : Source} (hmin : p.minVersion ≤ version) (hmax : version ≤ p.maxVersion)
    (he : RecordReads bs (ReadRecord.entry p version) {} e {})
    (hsource : source.Delivers (Read.fixedLetters ++ Wire.versionField version ++ (bs ++ rest))
      p.bufferSize) : ((start p source).run [.next]).entries = #[e] := by
  obtain ⟨s, hopen, hs, hnone⟩ := openSnapshot_header hmin hmax hsource
  obtain ⟨intake, hnext, -⟩ := next_of_reads he hs
  have hrun : (start p source).run [.next] = (start p source).next.2 := rfl
  rw [hrun, next_of_openSnapshot hopen, hnext, entries_deliver, entries_advance, hnone]
  rfl

theorem entry_mem_run_next {p : Profile} {version : Nat} {bs rest : Bytes} {e : Entry Packed}
    {source : Source} (hmin : p.minVersion ≤ version) (hmax : version ≤ p.maxVersion)
    (he : RecordReads bs (ReadRecord.entry p version) {} e {})
    (hsource : source.Delivers (Read.fixedLetters ++ Wire.versionField version ++ (bs ++ rest))
      p.bufferSize) : e ∈ ((start p source).run [.next]).entries := by
  rw [entries_run_next hmin hmax he hsource]
  exact Array.mem_singleton.mpr rfl

/-- **Paired values are paired where they are read pair by pair**, and otherwise as far as their
container is: it gives as many elements as it says that it holds. -/
theorem length_of_isPaired (p : Profile) (source : Source) (ops : List Step) {fields : KeyFields}
    {values : Deferred Packed} {xs : List Bytes}
    (hmem : .keyValue fields values ∈ ((start p source).run ops).entries)
    (hpaired : fields.kind.isPaired = true) (hxs : values.force.1 = .ok xs) :
    PairedAsStored fields.kind values.captured? xs := by
  have hkeeps : Keeps p Anything ((start p source).run ops) :=
    (keeps_start trivial).run (.anything p) ops
  exact (hkeeps.entries _ hmem).pairedAsStored hpaired hxs

/-- A snapshot of version 11 that ends behind its only key, `k`, a hash of the pair `a`, `b`. -/
def pairSnapshot : Bytes :=
  [0x52, 0x45, 0x44, 0x49, 0x53, 0x30, 0x30, 0x31, 0x31, 4, 1, 0x6B, 1, 1, 0x61, 1, 0x62]

/-- A ziplist of a single element, `a`. -/
def singleton : Bytes :=
  [0, 0, 0, 0, 0, 0, 0, 0, 1, 0, 0, 1, 0x61, 0xFF]

/-- A snapshot of version 11 that ends behind its only key, `k`, a hash in that ziplist. -/
def unpairedSnapshot : Bytes :=
  [0x52, 0x45, 0x44, 0x49, 0x53, 0x30, 0x30, 0x31, 0x31, 13, 1, 0x6B, 14] ++ singleton

/-- A hash that is read pair by pair. -/
theorem length_of_isPaired_pair :
    .keyValue { key := [0x6B], kind := .hash } (.ofElements [[0x61], [0x62]]) ∈
        ((start .standard (.ofBytes pairSnapshot)).run [.next]).entries ∧
      PairedAsStored .hash none [[0x61], [0x62]] := by
  have htext (b : UInt8) : Wire.Text Profile.standard.textLimit [b] ([1] ++ [b]) :=
    @Wire.Text.raw _ [b] [1] (show (1 : Int) ≤ _ by decide) (.six (show 1 < 64 by decide))
  have hpair : Wire.Pair (Wire.Text Profile.standard.textLimit)
      (Wire.Text Profile.standard.textLimit) ([0x61], [0x62]) [1, 0x61, 1, 0x62] :=
    .intro (htext 0x61) (htext 0x62)
  have hvalue : Wire.Value .standard (.hash [([0x61], [0x62])]) [1, 1, 0x61, 1, 0x62] :=
    @Wire.Counted.intro _ _ _ [([0x61], [0x62])] [1] _ (by decide) (.six (by decide))
      (.cons hpair .nil)
  have hkey : Wire.RecordForm .standard 11 (.key [] [0x6B] (.hash [([0x61], [0x62])]))
      (pairSnapshot.drop 9) := .key .nil rfl (htext 0x6B) hvalue
  have hmem := @entry_mem_run_next .standard 11 _ [] _ (.ofBytes pairSnapshot) (by decide)
    (by decide) hkey.reads (.contents (by decide))
  exact ⟨hmem, length_of_isPaired .standard (.ofBytes pairSnapshot) [.next] hmem rfl rfl⟩

/-- A packed hash whose only key has no value is delivered with an odd number of elements. -/
theorem exists_unpaired : ¬ ∀ (p : Profile) (data : Bytes) (ops : List Step) (fields : KeyFields)
    (values : Deferred Packed) (xs : List Bytes),
      .keyValue fields values ∈ ((start p (.ofBytes data)).run ops).entries →
        fields.kind.isPaired = true → values.force.1 = .ok xs → 2 ∣ xs.length := by
  intro h
  have hname : Wire.Text Profile.standard.textLimit [0x6B] [1, 0x6B] :=
    .raw (by decide) (.six (by decide))
  have hvalue : Wire.Value .standard (.container .hashZiplist singleton) ([14] ++ singleton) :=
    @Wire.Text.raw _ singleton [14] (by decide) (.six (by decide))
  have hkey : Wire.RecordForm .standard 11 (.key [] [0x6B] (.container .hashZiplist singleton))
      (ValueKind.hashZiplist.code :: ([1, 0x6B] ++ ([14] ++ singleton))) :=
    .key .nil rfl hname hvalue
  have hmem := @entry_mem_run_next .standard 11 _ [] _ (.ofBytes unpairedSnapshot) (by decide)
    (by decide) hkey.reads (.contents (by decide))
  have hxs : (Deferred.capture (Packed.ziplist Ziplist.defaultCutoff singleton)).force.1 =
      .ok [[0x61]] := rfl
  have hodd : ¬ 2 ∣ [[(0x61 : UInt8)]].length := by decide
  exact hodd (h .standard unpairedSnapshot [.next] _ _ _ hmem rfl hxs)

end Session

end RedisDump
