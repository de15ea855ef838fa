import RedisDump.Packed.Listpack
import RedisDump.Packed.Ziplist

/-!
# Quicklists

A long list is split into nodes that are packed on their own. In the first form every node is a
ziplist; in the second a node is a listpack, or plain: then its bytes are a single element. The
elements of the list are those of its nodes, and the first node that cannot be decoded decides
the answer of the whole.
-/

namespace RedisDump.Quicklist

/-- A node of the second form: its form and its bytes. -/
abbrev Node := Int × Bytes

/-- The form of a node that is a single element. -/
def plainForm : Int := 1

/-- The form of a node that is a listpack. -/
def packedForm : Int := 2

/-- The elements of a list split into ziplists. -/
def decode (cutoff : Int) (ziplists : List Bytes) : Except PackedError (List Bytes) :=
  return (← ziplists.mapM (Ziplist.decode cutoff)).flatten

/-- The elements of a node of the second form. -/
def decodeNode (node : Node) : Except PackedError (List Bytes) :=
  if node.1 = packedForm then Listpack.decode node.2
  else if node.1 = plainForm then .ok [node.2]
  else .error (.unknownNode node.1)

/-- The elements of a list split into nodes of the second form. -/
def decodeNodes (nodes : List Node) : Except PackedError (List Bytes) :=
  return (← nodes.mapM decodeNode).flatten

end RedisDump.Quicklist
