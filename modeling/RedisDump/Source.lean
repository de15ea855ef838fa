import RedisDump.Bytes
import RedisDump.MachineWord

/-!
# Byte sources

A snapshot is read from a source that hands out its bytes in portions. There are two kinds:
contents that are all at hand, of which each request gets as many bytes as it asks for, and a
script of portions, of which each request gets the next one whole, whatever it asks for. The
contents lie in memory, so a request for them has to fit into a machine word. A scripted portion
may be missing; the request that meets it fails.
-/

namespace RedisDump

/-- Why a source does not answer a request. -/
inductive Source.Error where
  /-- The source failed of its own accord. -/
  | failed
  /-- The source has been closed. -/
  | closed
  /-- The number of bytes asked for does not fit into a machine word. -/
  | tooWide
  deriving DecidableEq, Repr

/-- The text of a source's error. -/
def Source.Error.message : Source.Error → String
  | .failed => "source failed"
  | .closed => "I/O operation on closed file."
  | .tooWide => MachineWord.tooWideMessage

/-- Where a source takes its bytes from. -/
inductive Source.Supply where
  /-- Contents of which `rest` is still to be handed out; they answer only while open. -/
  | contents (rest : Bytes) (isOpen : Bool)
  /-- Portions that are handed out in turn, `none` standing for a failure. Closing does not stop
  them, and after the last one every portion is empty. -/
  | script (portions : List (Option Bytes))
  deriving DecidableEq, Repr

/-- A source of bytes. -/
structure Source where
  /-- Where the bytes come from. -/
  supply : Source.Supply
  /-- How often the source has been closed. -/
  closeCalls : Nat := 0
  deriving DecidableEq, Repr

namespace Source

/-- A source with the given contents. -/
def ofBytes (data : Bytes) : Source :=
  { supply := .contents data true }

/-- A source that hands out the given portions in turn. -/
def ofPortions (portions : List (Option Bytes)) : Source :=
  { supply := .script portions }

/-- The next portion, for a request of `n` bytes. A negative request asks for all the rest, and
an empty portion means that there is nothing more for now. -/
def read (s : Source) (n : Int) : Except Error Bytes × Source :=
  match s.supply with
  | .contents rest isOpen =>
    if ¬ MachineWord.Fits n then (.error .tooWide, s)
    else if ¬ isOpen then (.error .closed, s)
    else if n < 0 then (.ok rest, { s with supply := .contents [] true })
    else (.ok (rest.take n.toNat), { s with supply := .contents (rest.drop n.toNat) true })
  | .script [] => (.ok [], s)
  | .script (none :: portions) => (.error .failed, { s with supply := .script portions })
  | .script (some portion :: portions) => (.ok portion, { s with supply := .script portions })

/-- Closes the source. -/
def close (s : Source) : Source :=
  { supply :=
      match s.supply with
      | .contents rest _ => .contents rest false
      | .script portions => .script portions
    closeCalls := s.closeCalls + 1 }

/-- The number of bytes in a portion. -/
def portionSize : Option Bytes → Nat
  | none => 0
  | some portion => portion.length

/-- The number of bytes that a source can still hand out. -/
def remaining (s : Source) : Nat :=
  match s.supply with
  | .contents rest _ => rest.length
  | .script portions => (portions.map portionSize).sum

/-- What a source hands out, it no longer has. -/
theorem remaining_read {s : Source} {n : Int} {portion : Bytes} {s' : Source}
    (h : s.read n = (.ok portion, s')) : portion.length + s'.remaining = s.remaining := by
  unfold read at h
  split at h
  · rename_i rest isOpen hs
    split at h
    · simp at h
    split at h
    · simp at h
    split at h
    · obtain ⟨rfl, rfl⟩ : rest = portion ∧ _ = s' := by simpa using h
      simp [remaining, hs]
    · obtain ⟨rfl, rfl⟩ : rest.take n.toNat = portion ∧ _ = s' := by simpa using h
      simp [remaining, hs]
      omega
  · rename_i hs
    obtain ⟨rfl, rfl⟩ : [] = portion ∧ s = s' := by simpa using h
    simp
  · simp at h
  · rename_i first portions hs
    obtain ⟨rfl, rfl⟩ : first = portion ∧ _ = s' := by simpa using h
    simp [remaining, hs, portionSize]

end Source

end RedisDump
