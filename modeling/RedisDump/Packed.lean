import RedisDump.Packed.Intset
import RedisDump.Packed.Quicklist
import RedisDump.Packed.Zipmap
import RedisDump.Score

/-!
# Packed values

A value in one of the packed forms, as it was captured from a snapshot: the bytes of its
container, or of the nodes of a list, and what is needed to decode them later.
-/

namespace RedisDump

/-- A captured value that has not been decoded. -/
inductive Packed where
  | zipmap (data : Bytes)
  | ziplist (cutoff : Int) (data : Bytes)
  /-- A ziplist of members and scores. -/
  | scoredZiplist (cutoff : Int) (data : Bytes)
  | intset (data : Bytes)
  | listpack (data : Bytes)
  /-- A listpack of members and scores. -/
  | scoredListpack (data : Bytes)
  | quicklist (cutoff : Int) (ziplists : List Bytes)
  | quicklist2 (nodes : List Quicklist.Node)
  deriving DecidableEq, Repr

namespace Packed

/-- The name of the form of a packed value. -/
def format : Packed → String
  | zipmap _ => "zipmap"
  | ziplist .. | scoredZiplist .. => "ziplist"
  | intset _ => "intset"
  | listpack _ | scoredListpack _ => "listpack"
  | quicklist .. => "quicklist"
  | quicklist2 _ => "quicklist2"

/-- The elements of a packed value; scores get their canonical texts. -/
def decode : Packed → Except PackedError (List Bytes)
  | zipmap data => Zipmap.decode data
  | ziplist cutoff data => Ziplist.decode cutoff data
  | scoredZiplist cutoff data => (Ziplist.decode cutoff data).map Score.canonicalise
  | intset data => Intset.decode data
  | listpack data => Listpack.decode data
  | scoredListpack data => (Listpack.decode data).map Score.canonicalise
  | quicklist cutoff ziplists => Quicklist.decode cutoff ziplists
  | quicklist2 nodes => Quicklist.decodeNodes nodes

end Packed

end RedisDump
