import RedisDump.Deferred
import RedisDump.Deferred.Slice

/-!
# Using a deferred list step by step

The questions that can be asked of a deferred list, as data. Those about its elements decode it
first, if that is still to be done; those about the list itself, and comparisons with something
that is no list, do not.
-/

namespace RedisDump.Deferred

/-- What a list can be compared with. -/
inductive Comparand where
  /-- A list of elements, deferred or not. -/
  | elements (values : List Bytes)
  /-- Something that is no list, and so never equal to one. -/
  | foreign
  deriving DecidableEq, Repr

/-- A question to a list. -/
inductive Step where
  /-- Whether the elements are known. -/
  | isRealized
  /-- What was captured. -/
  | captured
  /-- The elements. -/
  | get
  /-- The elements, in a copy that is altered afterwards. -/
  | alterCopy
  /-- The number of elements. -/
  | size
  /-- Whether there are elements. -/
  | isNonempty
  /-- The element at a position. -/
  | item (i : Int)
  /-- The elements of a slice. -/
  | slice (s : Slice)
  /-- The elements in reverse order. -/
  | reversed
  /-- Whether a value is among the elements. -/
  | contains (value : Bytes)
  /-- The first position of a value in a range, whose ends may be counted from the end. -/
  | position (value : Bytes) (start : Int) (stop : Option Int)
  /-- How often a value is among the elements. -/
  | count (value : Bytes)
  /-- Whether the list equals something. -/
  | equals (other : Comparand)
  /-- Whether the list differs from something. -/
  | differs (other : Comparand)
  /-- The description of the list. -/
  | describe
  /-- The hash of the list, which it does not have. -/
  | hash
  deriving DecidableEq, Repr

/-- The answer to a question. -/
inductive Answer (δ : Type) where
  | truth (b : Bool)
  | number (n : Nat)
  | bytes (bs : Bytes)
  | elements (values : List Bytes)
  | text (s : String)
  | captured (c : Option δ)
  deriving DecidableEq, Repr

/-- Why a question has no answer. -/
inductive Error (ε : Type) where
  /-- The list cannot be decoded. -/
  | decoding (e : ε)
  /-- There is no element at the position. -/
  | position (e : Position.Error)
  /-- The step of a slice is zero. -/
  | zeroStep
  /-- The value is not in the range. -/
  | absent
  /-- A list has no hash. -/
  | unhashable
  deriving DecidableEq, Repr

/-- The text of an error. -/
def Error.message {ε : Type} (text : ε → String) : Error ε → String
  | .decoding e => text e
  | .position e => e.message "tuple"
  | .zeroStep => "slice step cannot be zero"
  | .absent => ""
  | .unhashable => "unhashable type: 'LazyList'"

variable {δ ε : Type}

/-- The description of a list: its elements, where they are known. -/
def describe : Deferred δ → String
  | realized _ elements _ => "LazyList(" ++ Text.quotedList elements ++ ")"
  | pending .. => "LazyList(<unrealized>)"

/-- A copy of the elements with one more behind them and the first one changed. -/
def altered (elements : List Bytes) : List Bytes :=
  (elements ++ [Bytes.ofAscii "junk"]).set 0 (Bytes.ofAscii "changed")

/-- Whether a range is seen to be empty before the number of elements is known. -/
def isVoidRange (start : Int) (stop : Option Int) : Bool :=
  match stop with
  | some stop => decide (0 ≤ start) && decide (0 ≤ stop) && decide (stop ≤ start)
  | none => false

/-- The element at a position. -/
def itemAnswer (elements : List Bytes) (i : Int) : Except (Error ε) (Answer δ) :=
  match Position.place elements.length i with
  | .ok p => .ok (.bytes elements[p])
  | .error e => .error (.position e)

/-- The elements of a slice. -/
def sliceAnswer (elements : List Bytes) (s : Slice) : Except (Error ε) (Answer δ) :=
  match s.choose? elements with
  | some values => .ok (.elements values)
  | none => .error .zeroStep

/-- The first position of a value in a range. -/
def positionAnswer (elements : List Bytes) (value : Bytes) (start : Int) (stop : Option Int) :
    Except (Error ε) (Answer δ) :=
  let fromStart := Position.fromStart elements.length
  match positionOf? elements value (fromStart start) (stop.map fromStart) with
  | some i => .ok (.number i)
  | none => .error .absent

/-- Whether a search looks at the first element of a range before it asks for the number of
elements. It asks for the number first where an end of the range is counted from the end. -/
def looksFirst (start : Int) (stop : Option Int) : Bool :=
  decide (0 ≤ start) && stop.all fun stop => decide (0 ≤ stop)

variable (δ) in
/-- What a search raises when the elements cannot be decoded. An error that says that an index is
out of range is taken for the end of the list by a search that looks at an element. -/
def searchFailure [Decodable δ ε] (start : Int) (stop : Option Int) (e : ε) : Error ε :=
  if looksFirst start stop && @Decodable.endsSearch δ ε _ e then .absent else .decoding e

variable (δ) in
/-- What a walk over the elements raises when they cannot be decoded. -/
def walkFailure [Decodable δ ε] (e : ε) : Error ε :=
  .decoding (@Decodable.leavesWalk δ ε _ e)

/-- The answer that the elements give, once they are known. -/
def withElements [Decodable δ ε] (d : Deferred δ)
    (answer : List Bytes → Except (Error ε) (Answer δ)) (failure : ε → Error ε := .decoding) :
    Except (Error ε) (Answer δ) × Deferred δ :=
  match d.force with
  | (.ok elements, d) => (answer elements, d)
  | (.error e, d) => (.error (failure e), d)

/-- Asks a list a question. -/
def step [Decodable δ ε] (d : Deferred δ) : Step → Except (Error ε) (Answer δ) × Deferred δ
  | .isRealized => (.ok (.truth d.isRealized), d)
  | .captured => (.ok (.captured d.captured?), d)
  | .describe => (.ok (.text d.describe), d)
  | .hash => (.error .unhashable, d)
  | .get => d.withElements fun xs => .ok (.elements xs)
  | .alterCopy => d.withElements fun xs => .ok (.elements (altered xs))
  | .size => d.withElements fun xs => .ok (.number xs.length)
  | .isNonempty => d.withElements fun xs => .ok (.truth !xs.isEmpty)
  | .item i => d.withElements fun xs => itemAnswer xs i
  | .slice s => d.withElements fun xs => sliceAnswer xs s
  | .reversed => d.withElements (fun xs => .ok (.elements xs.reverse)) (walkFailure δ)
  | .contains value => d.withElements fun xs => .ok (.truth (xs.contains value))
  | .count value => d.withElements fun xs => .ok (.number (xs.count value))
  | .position value start stop =>
    if isVoidRange start stop then (.error .absent, d)
    else
      d.withElements (fun xs => positionAnswer xs value start stop) (searchFailure δ start stop)
  | .equals .foreign => (.ok (.truth false), d)
  | .equals (.elements values) => d.withElements fun xs => .ok (.truth (xs == values))
  | .differs .foreign => (.ok (.truth true), d)
  | .differs (.elements values) => d.withElements fun xs => .ok (.truth (xs != values))

end RedisDump.Deferred
