import RedisDump.Deferred
import RedisDump.Profile

/-!
# The value of a key

How a value is stored depends on its kind: a string, a counted sequence of strings, a counted
sequence of pairs, the bytes of a packed container, or the counted nodes of a list. A declared
count above its limit is refused before anything else of the value is read. Packed forms are
captured and not looked at.
-/

namespace RedisDump.Read

/-- The number of elements of a collection. -/
def count (collection : Collection) (limit : Int) : Read Nat := do
  let n ← length
  if limit < n then throw (.tooLarge (.ofElements collection limit n))
  else return n

/-- A counted sequence of strings. -/
def texts (p : Profile) (collection : Collection) : Read (List Bytes) := do
  let n ← count collection p.elementLimit
  collect (fun _ => text p.textLimit) n

/-- A string and what `second` reads after it. -/
def pair (p : Profile) (second : Read Bytes) : Read (Bytes × Bytes) := do
  let a ← text p.textLimit
  let b ← second
  return (a, b)

/-- A counted sequence of pairs, as a flat list. -/
def pairs (p : Profile) (collection : Collection) (second : Read Bytes) :
    Read (List Bytes) := do
  let n ← count collection p.pairLimit
  return Bytes.flattenPairs (← collect (fun _ => pair p second) n)

/-- A node of a list that is split into nodes of two forms. -/
def node (p : Profile) : Read Quicklist.Node := do
  let form ← length
  let data ← text p.textLimit
  return (Int.ofNat form, data)

/-- The nodes of a list that is split into nodes of two forms. -/
def nodes (p : Profile) : Read (List Quicklist.Node) := do
  let n ← count .quicklists p.elementLimit
  collect (fun _ => node p) n

/-- A packed container, captured in the form that `pack` gives it. -/
def container (p : Profile) (pack : Bytes → Packed) : Read (Deferred Packed) :=
  return .capture (pack (← text p.textLimit))

/-- A value of the given kind; `cutoff` is the one of the ziplists in the snapshot. -/
def value (p : Profile) (cutoff : Int) : ValueKind → Read (Deferred Packed)
  | .string => return .ofElements [← text p.textLimit]
  | .list => return .ofElements (← texts p .lists)
  | .set => return .ofElements (← texts p .sets)
  | .sortedSet => return .ofElements (← pairs p .sortedSets scoreText)
  | .sortedSet2 => return .ofElements (← pairs p .sortedSets scoreBinary)
  | .hash => return .ofElements (← pairs p .hashes (text p.textLimit))
  | .hashZipmap => container p .zipmap
  | .listZiplist => container p (.ziplist cutoff)
  | .setIntset => container p .intset
  | .sortedSetZiplist => container p (.scoredZiplist cutoff)
  | .hashZiplist => container p (.ziplist cutoff)
  | .listQuicklist => return .capture (.quicklist cutoff (← texts p .quicklists))
  | .listQuicklist2 => return .capture (.quicklist2 (← nodes p))
  | .setListpack => container p .listpack
  | .hashListpack => container p .listpack
  | .sortedSetListpack => container p .scoredListpack

theorem count_eager (collection : Collection) (limit : Int) :
    Eager Input.remaining (count collection limit) := by
  refine length_eager.bind fun _ => ?_
  split
  · exact (Eager.throw _).steady
  · exact Steady.pure _

theorem texts_steady (p : Profile) (collection : Collection) :
    Steady Input.remaining (texts p collection) :=
  (count_eager _ _).steady.bind fun _ => Steady.collect (fun _ => (text_eager _).steady) _

theorem pair_steady (p : Profile) {second : Read Bytes}
    (h : Steady Input.remaining second) : Steady Input.remaining (pair p second) :=
  (text_eager _).steady.bind fun _ => h.bind fun _ => Steady.pure _

theorem pairs_steady (p : Profile) (collection : Collection) {second : Read Bytes}
    (h : Steady Input.remaining second) : Steady Input.remaining (pairs p collection second) :=
  (count_eager _ _).steady.bind fun _ =>
    (Steady.collect (fun _ => pair_steady p h) _).bind fun _ => Steady.pure _

theorem node_steady (p : Profile) : Steady Input.remaining (node p) :=
  length_eager.steady.bind fun _ => (text_eager _).steady.bind fun _ => Steady.pure _

theorem nodes_steady (p : Profile) : Steady Input.remaining (nodes p) :=
  (count_eager _ _).steady.bind fun _ => Steady.collect (fun _ => node_steady p) _

theorem container_steady (p : Profile) (pack : Bytes → Packed) :
    Steady Input.remaining (container p pack) :=
  (text_eager _).steady.bind fun _ => Steady.pure _

theorem value_steady (p : Profile) (cutoff : Int) (kind : ValueKind) :
    Steady Input.remaining (value p cutoff kind) := by
  cases kind
  · exact (text_eager _).steady.bind fun _ => Steady.pure _
  · exact (texts_steady _ _).bind fun _ => Steady.pure _
  · exact (texts_steady _ _).bind fun _ => Steady.pure _
  · exact (pairs_steady _ _ scoreText_eager.steady).bind fun _ => Steady.pure _
  · exact (pairs_steady _ _ scoreBinary_steady).bind fun _ => Steady.pure _
  · exact (pairs_steady _ _ (text_eager _).steady).bind fun _ => Steady.pure _
  · exact container_steady _ _
  · exact container_steady _ _
  · exact container_steady _ _
  · exact container_steady _ _
  · exact container_steady _ _
  · exact (texts_steady _ _).bind fun _ => Steady.pure _
  · exact (nodes_steady _).bind fun _ => Steady.pure _
  · exact container_steady _ _
  · exact container_steady _ _
  · exact container_steady _ _

end RedisDump.Read
