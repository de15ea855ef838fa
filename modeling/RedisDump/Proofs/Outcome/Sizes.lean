import RedisDump.Proofs.Decimal
import RedisDump.Proofs.Expansion
import RedisDump.Proofs.Outcome.Elements
import RedisDump.Proofs.Pairing

/-!
# Sizes of what is read

How large the strings and collections of an entry may be. A string that is read under a limit is
within it, unless it is the text of a compact integer, which has eleven bytes at most
(`Bytes.Bounded`). So the strings of an entry other than scores are bounded, the captured bytes of a
packed value included, and the number of elements or nodes of a collection is within its own limit
(`Entry.WithinLimits`). Decoding a value changes nothing about it.
-/

namespace RedisDump

/-! ### Strings -/

/-- The greatest number of bytes of the decimal text of a compact integer. -/
def Wire.Compact.maxLength : Nat := 11

/-- A string that may be read under a limit: beyond the limit there are only the texts of compact
integers. -/
structure Bytes.Bounded (limit : Int) (s : Bytes) : Prop where
  length_le : (s.length : Int) ≤ max limit Wire.Compact.maxLength
  compact : limit < s.length →
    ∃ (c : Wire.Compact) (z : Int), Bytes.FitsSigned c.width z ∧ Bytes.decimal z = s

theorem Bytes.bounded_of_le {limit : Int} {s : Bytes} (h : (s.length : Int) ≤ limit) :
    s.Bounded limit where
  length_le := Int.le_trans h (Int.le_max_left _ _)
  compact := fun hlt => absurd h (Int.not_le.mpr hlt)

theorem Wire.Compact.length_decimal_le (c : Wire.Compact) {z : Int}
    (h : Bytes.FitsSigned c.width z) : (Bytes.decimal z).length ≤ maxLength := by
  have hbound : -2 ^ 31 ≤ z ∧ z < 2 ^ 31 := by
    obtain ⟨hlow, hhigh⟩ := h
    cases c <;> simp only [width] at hlow hhigh <;> omega
  cases z with
  | ofNat n =>
    have hn : n < 10 ^ 10 := by
      have := hbound.2
      simp only [Int.ofNat_eq_natCast] at this
      omega
    exact Nat.le_succ_of_le ((Bytes.length_decimalNat_le_iff (by decide)).mpr hn)
  | negSucc n =>
    have hn : n + 1 < 10 ^ 10 := by
      have := hbound.1
      simp only [Int.negSucc_eq] at this
      omega
    exact Nat.succ_le_succ ((Bytes.length_decimalNat_le_iff (by decide)).mpr hn)

theorem Bytes.bounded_decimal {limit z : Int} (c : Wire.Compact)
    (h : Bytes.FitsSigned c.width z) : (Bytes.decimal z).Bounded limit where
  length_le := Int.le_trans (Int.ofNat_le.mpr (c.length_decimal_le h)) (Int.le_max_right _ _)
  compact := fun _ => ⟨c, z, h, rfl⟩

/-! ### Values and entries -/

/-- The members in a flat list of members and scores. -/
def Score.members : List Bytes → List Bytes
  | [] => []
  | [m] => [m]
  | m :: _ :: rest => m :: members rest

theorem Score.members_flattenPairs (ms : List (Bytes × Bytes)) :
    members (Bytes.flattenPairs ms) = ms.map Prod.fst := by
  induction ms with
  | nil => rfl
  | cons m ms ih => exact congrArg (m.1 :: ·) ih

/-- Whether the elements of a value are known as soon as it is read. -/
def ValueKind.isEager : ValueKind → Bool
  | string | list | set | sortedSet | sortedSet2 | hash => true
  | hashZipmap | listZiplist | setIntset | sortedSetZiplist | hashZiplist | listQuicklist
  | listQuicklist2 | setListpack | hashListpack | sortedSetListpack => false

/-- Whether a value is a list that is split into nodes. -/
def ValueKind.isQuicklist : ValueKind → Bool
  | listQuicklist | listQuicklist2 => true
  | _ => false

/-- The elements of a value that are no scores. -/
def ValueKind.unscored : ValueKind → List Bytes → List Bytes
  | sortedSet, xs | sortedSet2, xs => Score.members xs
  | _, xs => xs

/-- The byte strings that have been captured of a packed value: its container, or its nodes. -/
def Packed.envelopes : Packed → List Bytes
  | zipmap data | ziplist _ data | scoredZiplist _ data | intset data | listpack data
  | scoredListpack data => [data]
  | quicklist _ ziplists => ziplists
  | quicklist2 nodes => nodes.map Prod.snd

/-- A value of the given kind is within the limits of a profile. -/
structure Deferred.WithinLimits (p : Profile) (kind : ValueKind) (values : Deferred Packed) :
    Prop where
  /-- The elements of an eager value that are no scores are bounded, and those of a collection are
  no more than its limit, where a pair counts as two. -/
  elements : kind.isEager = true → ∃ xs, values.force.1 = .ok xs ∧
    (∀ x ∈ kind.unscored xs, x.Bounded p.textLimit) ∧
      (kind ≠ .string → (xs.length : Int) ≤ p.elementLimit)
  /-- What has been captured of a packed value is bounded, and a list has no more nodes than its
  limit. -/
  envelopes : kind.isEager = false → ∃ packed, values.captured? = some packed ∧
    (∀ bs ∈ packed.envelopes, bs.Bounded p.textLimit) ∧
      (kind.isQuicklist = true → (packed.envelopes.length : Int) ≤ p.elementLimit)

/-- An entry is within the limits of a profile. -/
def Entry.WithinLimits (p : Profile) : Entry Packed → Prop
  | aux key value => key.Bounded p.textLimit ∧ value.Bounded p.textLimit
  | keyValue fields values => fields.key.Bounded p.textLimit ∧ values.WithinLimits p fields.kind
  | eof _ | selectDb _ | resizeDb .. => True

/-- Values that are decoded alike are within the same limits. -/
theorem Deferred.WithinLimits.of_sameAnswer {p : Profile} {kind : ValueKind}
    {values values' : Deferred Packed} (h : values'.WithinLimits p kind)
    (hs : values.SameAnswer values') : values.WithinLimits p kind where
  elements := by
    rw [hs.answer]
    exact h.elements
  envelopes := by
    rw [hs.captured]
    exact h.envelopes

theorem Entry.WithinLimits.force {p : Profile} (fields : KeyFields) (values : Deferred Packed)
    (h : WithinLimits p (.keyValue fields values)) :
    WithinLimits p (.keyValue fields values.force.2) :=
  ⟨h.1, h.2.of_sameAnswer (Deferred.sameAnswer_force values)⟩

theorem Deferred.withinLimits_ofElements {p : Profile} {kind : ValueKind} {xs : List Bytes}
    (hkind : kind.isEager = true) (hxs : ∀ x ∈ kind.unscored xs, x.Bounded p.textLimit)
    (hn : kind ≠ .string → (xs.length : Int) ≤ p.elementLimit) :
    (Deferred.ofElements xs : Deferred Packed).WithinLimits p kind where
  elements := fun _ => ⟨xs, rfl, hxs, hn⟩
  envelopes := fun h => by
    rw [hkind] at h
    cases h

theorem Deferred.withinLimits_capture {p : Profile} {kind : ValueKind} {packed : Packed}
    (hkind : kind.isEager = false) (hbs : ∀ bs ∈ packed.envelopes, bs.Bounded p.textLimit)
    (hn : kind.isQuicklist = true → (packed.envelopes.length : Int) ≤ p.elementLimit) :
    (Deferred.capture packed).WithinLimits p kind where
  elements := fun h => by
    rw [hkind] at h
    cases h
  envelopes := fun _ => ⟨packed, rfl, hbs, hn⟩

/-! ### Readers -/

namespace Read.Rules

variable {P : Input → Prop} {E : ReadError → Prop} {p : Profile}

theorem rawText_bounded (h : Rules P E p) (n : Nat) :
    Ensures P (Bytes.Bounded p.textLimit) E (Read.rawText p.textLimit n) :=
  (h.checkTextLength n).bind fun _ hn => (h.bytes n).returns fun _ hlen =>
    Bytes.bounded_of_le (hlen ▸ hn)

theorem integerText_bounded (h : Rules P E p) (c : Wire.Compact) :
    Ensures P (Bytes.Bounded p.textLimit) E (Read.integerText c.width) := by
  refine (h.bytes c.width).map fun bs hlen => ?_
  have hne : bs ≠ [] := by
    rintro rfl
    cases c <;> cases hlen
  have hfits := Bytes.fitsSigned_leInt hne
  rw [hlen] at hfits
  exact Bytes.bounded_decimal c hfits

theorem compressedText_bounded (h : Rules P E p) :
    Ensures P (Bytes.Bounded p.textLimit) E (Read.compressedText p.textLimit) := by
  refine h.length.bind fun packed _ => h.length.bind fun size _ =>
    (h.checkTextLength size).bind fun _ hsize => (h.rawText packed).bind fun payload _ => ?_
  split
  · rename_i expanded hd
    refine .pure (Bytes.bounded_of_le ?_)
    rwa [Lzf.length_of_decompressTo hd]
  · rename_i he
    exact .throw (h.payload size payload _ hsize he)

theorem specialText_bounded (h : Rules P E p) (form : Nat) :
    Ensures P (Bytes.Bounded p.textLimit) E (Read.specialText p.textLimit form) := by
  unfold Read.specialText
  split
  · exact h.integerText_bounded .int8
  · exact h.integerText_bounded .int16
  · exact h.integerText_bounded .int32
  · exact h.compressedText_bounded
  · exact .throw (h.fault _ rfl rfl)

/-- **A string that is read is bounded by its limit.** -/
theorem text_bounded (h : Rules P E p) :
    Ensures P (Bytes.Bounded p.textLimit) E (Read.text p.textLimit) := by
  rw [Read.text_eq]
  refine h.byte.bind fun b _ => ?_
  split
  · exact h.specialText_bounded _
  · exact (h.lengthFrom b).bind fun n _ => h.rawText_bounded n

theorem count_le (h : Rules P E p) (collection : Collection) {most : Int}
    (hmost : p.WritableLimits → Text.Writable most) :
    Ensures P (fun n : Nat => (n : Int) ≤ most) E (Read.count collection most) := by
  refine h.length.bind fun n _ => ?_
  split
  · refine .throw (h.tooLarge fun hu hp => ?_)
    exact SizeError.ofElements_eq_unwritable_iff.mp hu (hmost hp)
  · rename_i hn
    exact .pure (Int.not_lt.mp hn)

theorem texts_bounded (h : Rules P E p) (collection : Collection) :
    Ensures P (fun xs => (xs.length : Int) ≤ p.elementLimit ∧ ∀ x ∈ xs, x.Bounded p.textLimit) E
      (Read.texts p collection) :=
  (h.count_le collection (·.elements)).bind fun n hn =>
    (Ensures.collect_forall (fun _ => h.text_bounded) n).returns fun _ ⟨hlen, hxs⟩ =>
      ⟨hlen ▸ hn, hxs⟩

/-- Pairs are counted against half the limit of elements. -/
theorem pairs_bounded (h : Rules P E p) (collection : Collection) {R : Bytes → Prop}
    {second : Read Bytes} (hs : Ensures P R E second) :
    Ensures P (fun xs => ∃ ms : List (Bytes × Bytes), Bytes.flattenPairs ms = xs ∧
      (xs.length : Int) ≤ p.elementLimit ∧ ∀ m ∈ ms, m.1.Bounded p.textLimit ∧ R m.2) E
        (Read.pairs p collection second) := by
  have hpair : Ensures P (fun m => m.1.Bounded p.textLimit ∧ R m.2) E (Read.pair p second) :=
    h.text_bounded.bind fun a ha => hs.map fun b hb => ⟨ha, hb⟩
  refine (h.count_le collection (·.pairs)).bind fun n hn =>
    (Ensures.collect_forall (fun _ => hpair) n).map fun ms ⟨hlen, hms⟩ => ⟨ms, rfl, ?_, hms⟩
  rw [Bytes.length_flattenPairs, hlen]
  unfold Profile.pairLimit at hn
  rw [Int.fdiv_eq_ediv_of_nonneg _ (by decide)] at hn
  omega

theorem nodes_bounded (h : Rules P E p) :
    Ensures P (fun ns => (ns.length : Int) ≤ p.elementLimit ∧
      ∀ n ∈ ns, n.2.Bounded p.textLimit) E (Read.nodes p) := by
  have hnode : Ensures P (fun n => n.2.Bounded p.textLimit) E (Read.node p) :=
    h.length.bind fun form _ => h.text_bounded.map fun data hdata => hdata
  exact (h.count_le .quicklists (·.elements)).bind fun n hn =>
    (Ensures.collect_forall (fun _ => hnode) n).returns fun _ ⟨hlen, hns⟩ => ⟨hlen ▸ hn, hns⟩

/-- A sorted set: its members are bounded, and of the scores nothing is said. -/
theorem scores_within (h : Rules P E p) {kind : ValueKind} (hkind : kind.isEager = true)
    (hunscored : kind.unscored = Score.members) {second : Read Bytes}
    (hs : Ensures P Anything E second) :
    Ensures P (Deferred.WithinLimits p kind) E
      (Read.pairs p .sortedSets second >>= fun xs => pure (.ofElements xs)) := by
  refine (h.pairs_bounded .sortedSets hs).map fun xs ⟨ms, hms, hlen, hall⟩ => ?_
  refine Deferred.withinLimits_ofElements hkind ?_ fun _ => hlen
  rw [hunscored, ← hms, Score.members_flattenPairs]
  intro x hx
  obtain ⟨m, hm, rfl⟩ := List.mem_map.mp hx
  exact (hall m hm).1

theorem container_within (h : Rules P E p) {kind : ValueKind}
    (hkind : kind.isEager = false) (hnodes : kind.isQuicklist = false) {pack : Bytes → Packed}
    (hpack : ∀ data, (pack data).envelopes = [data]) :
    Ensures P (Deferred.WithinLimits p kind) E (Read.container p pack) := by
  refine h.text_bounded.map fun data hdata => Deferred.withinLimits_capture hkind ?_ ?_
  · rw [hpack]
    simpa using hdata
  · rw [hnodes]
    nofun

/-- **A value that is read is within the limits.** -/
theorem value_within (h : Rules P E p) (cutoff : Int) (kind : ValueKind) :
    Ensures P (Deferred.WithinLimits p kind) E (Read.value p cutoff kind) := by
  cases kind with
  | string =>
    refine h.text_bounded.map fun s hs => Deferred.withinLimits_ofElements rfl ?_ fun h => absurd rfl h
    simpa [ValueKind.unscored] using hs
  | list =>
    exact (h.texts_bounded .lists).map fun xs ⟨hlen, hxs⟩ =>
      Deferred.withinLimits_ofElements rfl hxs fun _ => hlen
  | set =>
    exact (h.texts_bounded .sets).map fun xs ⟨hlen, hxs⟩ =>
      Deferred.withinLimits_ofElements rfl hxs fun _ => hlen
  | sortedSet => exact h.scores_within rfl rfl h.scoreText
  | sortedSet2 => exact h.scores_within rfl rfl (h.scoreBinary.returns fun _ _ => trivial)
  | hash =>
    refine (h.pairs_bounded .hashes h.text_bounded).map fun xs ⟨ms, hms, hlen, hall⟩ => ?_
    refine Deferred.withinLimits_ofElements rfl ?_ fun _ => hlen
    intro x (hx : x ∈ xs)
    rw [← hms, Bytes.flattenPairs] at hx
    obtain ⟨m, hm, hx⟩ := List.mem_flatMap.mp hx
    obtain rfl | rfl : x = m.1 ∨ x = m.2 := by simpa using hx
    · exact (hall m hm).1
    · exact (hall m hm).2
  | listQuicklist =>
    exact (h.texts_bounded .quicklists).map fun zs ⟨hlen, hzs⟩ =>
      Deferred.withinLimits_capture rfl hzs fun _ => hlen
  | listQuicklist2 =>
    refine h.nodes_bounded.map ?_
    rintro ns ⟨hlen, hns⟩
    refine Deferred.withinLimits_capture rfl ?_ fun _ => ?_
    · intro bs hbs
      obtain ⟨n, hn, rfl⟩ := List.mem_map.mp hbs
      exact hns n hn
    · rwa [Packed.envelopes, List.length_map]
  | hashZipmap | listZiplist | setIntset | sortedSetZiplist | hashZiplist | setListpack
  | hashListpack | sortedSetListpack => exact h.container_within rfl rfl fun _ => rfl

end Read.Rules

namespace ReadRecord

open Read (Rules)

variable {P : Input → Prop} {E : ReadError → Prop} {p : Profile} {version : Nat}

theorem recordEnds_withinLimits (h : Rules P E p) :
    RecordEnds P (Entry.WithinLimits p) E p version where
  eof := (h.eof version).returns fun _ ⟨_, _, he⟩ => he ▸ trivial
  selectDb := h.selectDb.returns fun _ ⟨_, he⟩ => he ▸ trivial
  resizeDb := h.resizeDb.returns fun _ ⟨_, _, he⟩ => he ▸ trivial
  aux := h.text_bounded.bind fun _ hkey => h.text_bounded.map fun _ hvalue => ⟨hkey, hvalue⟩
  keyValue kind := keyValue_yields h.text_bounded (h.value_within _ kind)
    fun _ _ hkind hkey hvalues => ⟨hkey, hkind ▸ hvalues⟩

/-- **An entry that is read is within the limits.** -/
theorem withinLimits_of_entry {s s' : Intake} {e : Entry Packed}
    (h : entry p version s = .ok e s') : e.WithinLimits p := by
  have hyields : Yields Anything (Entry.WithinLimits p) Anything p version (entry p version) :=
    (recordEnds_withinLimits (.anything _)).entry (.anything _)
  have hend := hyields s trivial
  rw [h] at hend
  exact hend.of_ok.1

end ReadRecord

end RedisDump
