import RedisDump.Input.Text
import RedisDump.Packed.Ziplist

/-!
# Profiles

A profile says which snapshots are accepted: the range of format versions, whether parts newer
than the snapshot's own version are refused, and the greatest sizes of collections and strings.
It is made from a draft, whose numbers may be anything; a profile's version range lies inside
the known versions, and its buffer size is positive.
-/

namespace RedisDump

/-- The oldest known format version. -/
def oldestVersion : Nat := 1

/-- The newest known format version. -/
def newestVersion : Nat := 12

/-- The greatest number of elements of a collection when nothing else is said. -/
def defaultElementLimit : Int := 2 ^ 31 - 1

/-- What is accepted of a snapshot. -/
structure Profile where
  /-- The name of the profile. -/
  name : String
  /-- The oldest format version accepted. -/
  minVersion : Nat
  /-- The newest format version accepted. -/
  maxVersion : Nat
  /-- The number of bytes asked for at a time. -/
  bufferSize : Nat
  /-- The greatest number of elements of a collection. -/
  elementLimit : Int
  /-- The greatest length of a string. -/
  textLimit : Int
  /-- Whether parts newer than the snapshot's version are refused. -/
  strict : Bool
  /-- The ziplist cutoff, where it does not follow from the snapshot's version. -/
  cutoff? : Option Int
  oldest_le_min : oldestVersion ≤ minVersion
  min_le_max : minVersion ≤ maxVersion
  max_le_newest : maxVersion ≤ newestVersion
  bufferSize_pos : 0 < bufferSize

namespace Profile

/-- Why there is no such profile. -/
inductive Error where
  /-- The version range is empty or not inside the known versions. -/
  | versionRange (min max : Int)
  /-- The buffer size is not positive. -/
  | bufferSize (n : Int)
  /-- No profile has the name. -/
  | unknownName (name : String)
  deriving DecidableEq, Repr

/-- The text of a profile error. -/
def Error.message : Error → String
  | .versionRange min max =>
    let oldest := oldestVersion
    let newest := newestVersion
    s!"Version range {min}..{max} is outside {oldest}..{newest}"
  | .bufferSize n => s!"Buffer size must be positive, got {n}"
  | .unknownName name => Text.quoted name

/-- The settings of a profile before they are checked. -/
structure Draft where
  name : String := "default"
  minVersion : Int := oldestVersion
  maxVersion : Int := newestVersion
  bufferSize : Int := defaultBufferSize
  elementLimit : Int := defaultElementLimit
  textLimit : Int := defaultTextLimit
  strict : Bool := true
  cutoff? : Option Int := none
  deriving DecidableEq, Repr

/-- The profile of a draft, if its version range and its buffer size are in order. -/
def Draft.check (d : Draft) : Except Error Profile :=
  if versions : oldestVersion ≤ d.minVersion ∧ d.maxVersion ≤ newestVersion ∧
      d.minVersion ≤ d.maxVersion then
    if buffer : 0 < d.bufferSize then
      .ok
        { name := d.name
          minVersion := d.minVersion.toNat
          maxVersion := d.maxVersion.toNat
          bufferSize := d.bufferSize.toNat
          elementLimit := d.elementLimit
          textLimit := d.textLimit
          strict := d.strict
          cutoff? := d.cutoff?
          oldest_le_min := by omega
          min_le_max := by omega
          max_le_newest := by omega
          bufferSize_pos := by omega }
    else .error (.bufferSize d.bufferSize)
  else .error (.versionRange d.minVersion d.maxVersion)

/-- The profile that accepts everything known, as long as it is not newer than the snapshot. -/
def standard : Profile where
  name := "default"
  minVersion := oldestVersion
  maxVersion := newestVersion
  bufferSize := defaultBufferSize.toNat
  elementLimit := defaultElementLimit
  textLimit := defaultTextLimit
  strict := true
  cutoff? := none
  oldest_le_min := by decide
  min_le_max := by decide
  max_le_newest := by decide
  bufferSize_pos := by decide

/-- The profile that accepts everything known, in a snapshot of any version. -/
def permissive : Profile :=
  { standard with name := "permissive", strict := false }

/-- The profile with the given name. -/
def named (name : String) : Except Error Profile :=
  match [standard, permissive].find? fun p => p.name == name with
  | some p => .ok p
  | none => .error (.unknownName name)

/-- The ziplist cutoff for a snapshot of the given version. Every version known so far has the
same one. -/
def cutoffFor (p : Profile) (_version : Int) : Int :=
  p.cutoff?.getD Ziplist.defaultCutoff

/-- The greatest number of pairs of a collection of pairs: half the greatest number of elements,
rounded down. -/
def pairLimit (p : Profile) : Int :=
  p.elementLimit.fdiv 2

/-- Limits that can be written out, as they are in every refusal of a size above them. -/
structure WritableLimits (p : Profile) : Prop where
  elements : Text.Writable p.elementLimit
  texts : Text.Writable p.textLimit

instance (p : Profile) : Decidable p.WritableLimits :=
  decidable_of_iff (Text.Writable p.elementLimit ∧ Text.Writable p.textLimit)
    ⟨fun h => ⟨h.1, h.2⟩, fun h => ⟨h.elements, h.texts⟩⟩

/-- Half the greatest number of elements has no more digits than it. -/
theorem WritableLimits.pairs {p : Profile} (h : p.WritableLimits) : Text.Writable p.pairLimit := by
  have hdiv : p.pairLimit = p.elementLimit / 2 := Int.fdiv_eq_ediv_of_nonneg _ (by decide)
  exact h.elements.of_natAbs_le (by omega)

/-- Whether a part of the format is refused in a snapshot of the given version. -/
def refuses (p : Profile) (part : VersionedPart) (version : Nat) : Bool :=
  p.strict && version < part.since

/-- A truth value in descriptions. -/
def truthText (b : Bool) : String :=
  if b then "True" else "False"

/-- The description of a profile. -/
def describe (p : Profile) : String :=
  let name := Text.quoted p.name
  let min := p.minVersion
  let max := p.maxVersion
  let strict := truthText p.strict
  s!"ParserConfig(name={name}, versions={min}..{max}, strict_versions={strict})"

end Profile

end RedisDump
