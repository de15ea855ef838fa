import RedisDump.Proofs.Bytewise

/-!
# Two runs side by side

One reader is run on two inputs that differ in something it cannot see. What is compared is a
`Comparison`: which states may face each other (`near`), with which errors both runs may stop
(`shared`), and how the first run alone may stop while the second goes on (`cut`).

A comparison is *stepwise* when reading a single byte keeps to it. Then every bytewise reader does
(`Bytewise.follows`), and so does every reader of records (`Recordwise.follows`) and the reader
of entries (`ReadRecord.entry_follows`).
-/

namespace RedisDump

/-- What is kept to by two runs. -/
structure Comparison (σ : Type) where
  /-- The states that may face each other. -/
  near : σ → σ → Prop
  /-- The errors with which both runs may stop. -/
  shared : ReadError → Prop
  /-- How the first run may stop on its own. -/
  cut : ReadError → σ → Prop

namespace Comparison

variable {σ α β : Type}

/-- The results of two runs that keep to a comparison. -/
inductive Follows (c : Comparison σ) :
    EStateM.Result ReadError σ α → EStateM.Result ReadError σ α → Prop where
  | ok {a : α} {s t : σ} : c.near s t → Follows c (.ok a s) (.ok a t)
  | error {e : ReadError} {s t : σ} : c.shared e → c.near s t → Follows c (.error e s) (.error e t)
  | cut {e : ReadError} {s : σ} {r : EStateM.Result ReadError σ α} :
    c.cut e s → Follows c (.error e s) r

/-- Two readers in turn keep to a comparison if each of them does. -/
theorem Follows.bind {c : Comparison σ} {r : EStateM ReadError σ α}
    {f : α → EStateM ReadError σ β} {s t : σ} (hr : c.Follows (r s) (r t))
    (hf : ∀ a s t, c.near s t → c.Follows (f a s) (f a t)) :
    c.Follows ((r >>= f) s) ((r >>= f) t) := by
  change c.Follows (EStateM.bind r f s) (EStateM.bind r f t)
  unfold EStateM.bind
  generalize r s = x, r t = y at hr
  cases hr with
  | ok h => exact hf _ _ _ h
  | error he h => exact .error he h
  | cut h => exact .cut h

/-- A comparison of inputs that reading a byte keeps to. A verdict on what was read is reached by
both runs. -/
structure Stepwise (c : Comparison Input) : Prop where
  next : ∀ (needed : Nat) (i j : Input), c.near i j →
    c.Follows (Read.next needed i) (Read.next needed j)
  verdict : ∀ e : ReadError, e.isVerdict = true → c.shared e

/-- A stepwise comparison of inputs that are open and look the same to a session: they have handed
out as many bytes, and their sources have been closed as often. -/
structure Sound (c : Comparison Input) : Prop extends Stepwise c where
  consumed : ∀ i j : Input, c.near i j → i.consumed = j.consumed
  closeCalls : ∀ i j : Input, c.near i j → i.source.closeCalls = j.source.closeCalls
  isOpen : ∀ i j : Input, c.near i j → i.closed = false ∧ j.closed = false

/-- The comparison of the states of reading records: the notes have to be the same. -/
def onIntake (c : Comparison Input) : Comparison Intake where
  near s t := c.near s.input t.input ∧ s.notes = t.notes
  shared := c.shared
  cut e s := c.cut e s.input

end Comparison

variable {c : Comparison Input}

/-- **A bytewise reader keeps to every stepwise comparison.** -/
theorem Bytewise.follows (hc : c.Stepwise) {α : Type} {r : Read α} (h : Bytewise r) {i j : Input}
    (hij : c.near i j) : c.Follows (r i) (r j) := by
  induction h generalizing i j with
  | pure a => exact .ok hij
  | throw he => exact .error (hc.verdict _ he) hij
  | next needed => exact hc.next needed i j hij
  | bind _ _ ihr ihf => exact (ihr hij).bind fun a _ _ h => ihf a h

/-- A reader that only reads from the input keeps to a comparison with it. -/
theorem ReadRecord.fromInput_follows {α : Type} {r : Read α} {s t : Intake}
    (h : c.Follows (r s.input) (r t.input)) (hn : s.notes = t.notes) :
    c.onIntake.Follows (fromInput r s) (fromInput r t) := by
  unfold fromInput
  generalize r s.input = x, r t.input = y at h
  cases h with
  | ok h => exact .ok ⟨h, hn⟩
  | error he h => exact .error he ⟨h, hn⟩
  | cut h => exact .cut h

/-- **A recordwise reader keeps to every stepwise comparison.** -/
theorem Recordwise.follows (hc : c.Stepwise) {α : Type} {r : ReadRecord α} (h : Recordwise r)
    {s t : Intake} (hst : c.onIntake.near s t) : c.onIntake.Follows (r s) (r t) := by
  induction h generalizing s t with
  | input h => exact ReadRecord.fromInput_follows (h.follows hc hst.1) hst.2
  | pure a => exact .ok hst
  | throw he => exact .error (hc.verdict _ he) hst
  | @consult _ f _ ih =>
    have hn : s.notes = t.notes := hst.2
    change c.onIntake.Follows (f s.notes s) (f t.notes t)
    rw [hn]
    exact ih t.notes hst
  | amend f => exact .ok ⟨hst.1, congrArg f hst.2⟩
  | bind _ _ ihr ihf => exact (ihr hst).bind fun a _ _ h => ihf a h

namespace ReadRecord

variable {p q : Profile} {version : Nat} {s t : Intake}

/-- The reader of a record keeps to every stepwise comparison, also for two profiles that read
records alike. -/
theorem record_follows (hc : c.Stepwise) (hpq : record q version = record p version)
    (hst : c.onIntake.near s t) :
    c.onIntake.Follows (record p version s) (record q version t) := by
  rw [hpq]
  exact (Recordwise.record p version).follows hc hst

/-- So does the reader of entries. -/
theorem entry_follows (hc : c.Stepwise) (hpq : record q version = record p version)
    (hst : c.onIntake.near s t) :
    c.onIntake.Follows (entry p version s) (entry q version t) := by
  fun_induction entry p version s generalizing t with
  | case1 s e s' hs =>
    have h := record_follows hc hpq hst
    generalize ht : record q version t = y at h
    rw [hs] at h
    cases h with
    | error he h =>
      rw [entry_of_error ht]
      exact .error he h
    | cut h => exact .cut h
  | case2 s e s' hs =>
    have h := record_follows hc hpq hst
    generalize ht : record q version t = y at h
    rw [hs] at h
    cases h with
    | ok h =>
      rw [entry_of_some ht]
      exact .ok h
  | case3 s s' hs ih =>
    have h := record_follows hc hpq hst
    generalize ht : record q version t = y at h
    rw [hs] at h
    cases h with
    | ok h =>
      rw [entry_of_none ht]
      exact ih h

end ReadRecord

end RedisDump
