import RedisDump.Proofs.Wire.Text

/-!
# Values on the wire

What a key holds, and the forms in which it may stand in a snapshot: a string, a counted sequence
of strings or of pairs, or the bytes of a packed container. Every form is read as the elements of
the value, or as the captured container (`Value.reads`).
-/

namespace RedisDump

/-- The packed containers that hold a value by themselves. -/
inductive Container where
  | hashZipmap
  | listZiplist
  | setIntset
  | sortedSetZiplist
  | hashZiplist
  | setListpack
  | hashListpack
  | sortedSetListpack
  deriving DecidableEq, Repr

/-- The kind of value in a container. -/
def Container.kind : Container → ValueKind
  | hashZipmap => .hashZipmap
  | listZiplist => .listZiplist
  | setIntset => .setIntset
  | sortedSetZiplist => .sortedSetZiplist
  | hashZiplist => .hashZiplist
  | setListpack => .setListpack
  | hashListpack => .hashListpack
  | sortedSetListpack => .sortedSetListpack

/-- What is captured of a container; `cutoff` is the one of the ziplists in the snapshot. -/
def Container.pack (cutoff : Int) : Container → Bytes → Packed
  | hashZipmap => .zipmap
  | listZiplist | hashZiplist => .ziplist cutoff
  | setIntset => .intset
  | sortedSetZiplist => .scoredZiplist cutoff
  | setListpack | hashListpack => .listpack
  | sortedSetListpack => .scoredListpack

/-- What a key holds. -/
inductive Content where
  | string (s : Bytes)
  | list (elements : List Bytes)
  | set (members : List Bytes)
  /-- Members with the texts of their scores. -/
  | sortedSet (members : List (Bytes × Bytes))
  | sortedSet2 (members : List (Bytes × Binary64))
  | hash (fields : List (Bytes × Bytes))
  | container (c : Container) (data : Bytes)
  | quicklist (ziplists : List Bytes)
  /-- Nodes with the numbers of their forms. -/
  | quicklist2 (nodes : List (Nat × Bytes))

namespace Content

/-- The kind of value that a key holds. -/
def kind : Content → ValueKind
  | string _ => .string
  | list _ => .list
  | set _ => .set
  | sortedSet _ => .sortedSet
  | sortedSet2 _ => .sortedSet2
  | hash _ => .hash
  | container c _ => c.kind
  | quicklist _ => .listQuicklist
  | quicklist2 _ => .listQuicklist2

/-- The elements of what a key holds, or what is captured of it. -/
def values (cutoff : Int) : Content → Deferred Packed
  | string s => .ofElements [s]
  | list xs | set xs => .ofElements xs
  | sortedSet ms => .ofElements (Bytes.flattenPairs ms)
  | sortedSet2 ms => .ofElements (Bytes.flattenPairs (ms.map fun m => (m.1, m.2.text)))
  | hash fs => .ofElements (Bytes.flattenPairs fs)
  | container c data => .capture (c.pack cutoff data)
  | quicklist zs => .capture (.quicklist cutoff zs)
  | quicklist2 ns => .capture (.quicklist2 (ns.map fun n => (Int.ofNat n.1, n.2)))

end Content

namespace Wire

variable {α β : Type}

/-- The bytes of a pair: those of its parts, one after the other. -/
inductive Pair (first : α → Bytes → Prop) (second : β → Bytes → Prop) :
    α × β → Bytes → Prop where
  | intro {a : α} {b : β} {bs cs : Bytes} : first a bs → second b cs →
    Pair first second (a, b) (bs ++ cs)

/-- The bytes of a counted sequence: its number of elements, within a limit, and the elements. -/
inductive Counted (limit : Int) (form : α → Bytes → Prop) (as : List α) : Bytes → Prop where
  | intro {count bs : Bytes} : (as.length : Int) ≤ limit → Length as.length count →
    Sequence form as bs → Counted limit form as (count ++ bs)

/-- The forms of what a key holds, within the limits of a profile. -/
def Value (p : Profile) : Content → Bytes → Prop
  | .string s => Text p.textLimit s
  | .list xs | .set xs => Counted p.elementLimit (Text p.textLimit) xs
  | .sortedSet ms => Counted p.pairLimit (Pair (Text p.textLimit) ScoreText) ms
  | .sortedSet2 ms => Counted p.pairLimit (Pair (Text p.textLimit) ScoreBinary) ms
  | .hash fs => Counted p.pairLimit (Pair (Text p.textLimit) (Text p.textLimit)) fs
  | .container _ data => Text p.textLimit data
  | .quicklist zs => Counted p.elementLimit (Text p.textLimit) zs
  | .quicklist2 ns => Counted p.elementLimit (Pair Length (Text p.textLimit)) ns

/-! ### Counted sequences -/

theorem reads_count {collection : Collection} {limit : Int} {n : Nat} {bs : Bytes}
    (hn : (n : Int) ≤ limit) (h : Length n bs) : Reads bs (Read.count collection limit) n := by
  refine h.reads.bindLeft ?_
  rw [if_neg (by omega)]
  exact .pure n

/-- A counted sequence is read element by element. -/
theorem Counted.reads {form : α → Bytes → Prop} {item : Nat → Read β} {f : α → β}
    (hitem : ∀ a bs k, form a bs → Reads bs (item k) (f a)) {collection : Collection}
    {limit : Int} {as : List α} {bs : Bytes} (h : Counted limit form as bs) :
    Reads bs (Read.count collection limit >>= collect item) (as.map f) := by
  obtain ⟨hlimit, hcount, hs⟩ := h
  exact (reads_count hlimit hcount).bind (Reads.collect hitem hs)

theorem Counted.reads_texts {p : Profile} {collection : Collection} {xs : List Bytes} {bs : Bytes}
    (h : Counted p.elementLimit (Text p.textLimit) xs bs) :
    Reads bs (Read.texts p collection) xs := by
  have hr : Reads bs (Read.texts p collection) (xs.map id) := h.reads fun _ _ _ ht => ht.reads
  rwa [List.map_id] at hr

theorem Pair.reads {p : Profile} {form : α → Bytes → Prop} {second : Read Bytes} {f : α → Bytes}
    (hsecond : ∀ a bs, form a bs → Reads bs second (f a)) {m : Bytes × α} {bs : Bytes}
    (h : Pair (Text p.textLimit) form m bs) : Reads bs (Read.pair p second) (m.1, f m.2) := by
  obtain ⟨ht, hf⟩ := h
  exact ht.reads.bind ((hsecond _ _ hf).map _)

theorem Counted.reads_pairs {p : Profile} {collection : Collection} {form : α → Bytes → Prop}
    {second : Read Bytes} {f : α → Bytes} (hsecond : ∀ a bs, form a bs → Reads bs second (f a))
    {ms : List (Bytes × α)} {bs : Bytes}
    (h : Counted p.pairLimit (Pair (Text p.textLimit) form) ms bs) :
    Reads bs (Read.pairs p collection second)
      (Bytes.flattenPairs (ms.map fun m => (m.1, f m.2))) := by
  obtain ⟨hlimit, hcount, hs⟩ := h
  exact (reads_count hlimit hcount).bind
    ((Reads.collect (fun _ _ _ hp => hp.reads hsecond) hs).map _)

/-- Pairs whose second parts are read as they are. -/
theorem Counted.reads_flat {p : Profile} {collection : Collection} {form : Bytes → Bytes → Prop}
    {second : Read Bytes} (hsecond : ∀ s bs, form s bs → Reads bs second s)
    {ms : List (Bytes × Bytes)} {bs : Bytes}
    (h : Counted p.pairLimit (Pair (Text p.textLimit) form) ms bs) :
    Reads bs (Read.pairs p collection second) (Bytes.flattenPairs ms) := by
  have hr : Reads bs (Read.pairs p collection second) (Bytes.flattenPairs (ms.map id)) :=
    h.reads_pairs hsecond
  rwa [List.map_id] at hr

theorem Counted.reads_nodes {p : Profile} {ns : List (Nat × Bytes)} {bs : Bytes}
    (h : Counted p.elementLimit (Pair Length (Text p.textLimit)) ns bs) :
    Reads bs (Read.nodes p) (ns.map fun n => (Int.ofNat n.1, n.2)) := by
  have hnode : ∀ n bs k, Pair Length (Text p.textLimit) n bs →
      Reads bs ((fun _ : Nat => Read.node p) k) (Int.ofNat n.1, n.2) := by
    rintro _ _ _ ⟨hl, ht⟩
    exact hl.reads.bind (ht.reads.map _)
  exact h.reads hnode

theorem reads_container {p : Profile} {data bs : Bytes} (h : Text p.textLimit data bs)
    (pack : Bytes → Packed) : Reads bs (Read.container p pack) (.capture (pack data)) :=
  h.reads.map _

/-! ### Values -/

/-- Every form of what a key holds is read as its elements, or captured. -/
theorem Value.reads {p : Profile} {cutoff : Int} {c : Content} {bs : Bytes} (h : Value p c bs) :
    Reads bs (Read.value p cutoff c.kind) (c.values cutoff) := by
  cases c with
  | string s => exact Reads.map (Text.reads h) _
  | list xs => exact (Counted.reads_texts h).map _
  | set xs => exact (Counted.reads_texts h).map _
  | sortedSet ms => exact (Counted.reads_flat (fun _ _ hs => ScoreText.reads hs) h).map _
  | sortedSet2 ms => exact (Counted.reads_pairs (fun _ _ hs => ScoreBinary.reads hs) h).map _
  | hash fs => exact (Counted.reads_flat (fun _ _ hs => Text.reads hs) h).map _
  | container c data => cases c <;> exact reads_container h _
  | quicklist zs => exact (Counted.reads_texts h).map _
  | quicklist2 ns => exact (Counted.reads_nodes h).map _

end Wire

end RedisDump
