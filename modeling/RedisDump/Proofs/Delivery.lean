import RedisDump.Proofs.Lockstep
import RedisDump.Session

/-!
# What an input holds

A source may hand its bytes out in portions of any size. For what reads them only two things
matter: that a portion is empty only when nothing is left, and which bytes are still to come. A
source of the first kind *flows*; an open input over it *holds* the bytes to come, in `unread`
and in the source together, after a number of bytes handed out.

The two lemmas on `Read.next` say all that reading a byte does to such an input: with a byte to
come it is handed out and counted (`next_of_holds_cons`), with none the read is cut short and the
input stays as it was (`next_of_holds_nil`). Memory that is asked for more bytes than a machine
word can count holds nothing for a reader (`Session.next_start_of_not_fits`).
-/

namespace RedisDump

/-- A profile with another buffer size. -/
def Profile.withBufferSize (p : Profile) (n : Nat) (h : 0 < n) : Profile :=
  { p with bufferSize := n, bufferSize_pos := h }

/-- A buffer size that does not fit into a machine word. -/
def Profile.tooWideSize : Nat := 2 ^ 63

/-- The state of reading `data` from memory behind `n` bytes, when a single portion holds it all. -/
def Intake.behind (p : Profile) (data : Bytes) (n : Nat) : Intake where
  input :=
    { source := .ofBytes []
      bufferSize := p.bufferSize
      unread := data.drop n
      consumed := n }

namespace Source

/-- The bytes that a source has not handed out yet. -/
def pending (s : Source) : Bytes :=
  match s.supply with
  | .contents rest _ => rest
  | .script portions => (portions.map fun p => p.getD []).flatten

/-- A source that answers every request of the given size, and with at least one byte as long as
it has any. -/
def Flows (size : Int) (s : Source) : Prop :=
  match s.supply with
  | .contents _ isOpen => isOpen = true ∧ 0 < size ∧ MachineWord.Fits size
  | .script portions => ∀ p ∈ portions, ∃ b bs, p = some (b :: bs)

/-- What a request to a flowing source gets: the front of what is pending, which is empty only if
nothing is. -/
theorem read_of_flows {s : Source} {size : Int} (h : s.Flows size) :
    ∃ portion s', s.read size = (.ok portion, s') ∧ s'.Flows size ∧
      s'.closeCalls = s.closeCalls ∧ s.pending = portion ++ s'.pending ∧
      (portion = [] → s.pending = []) := by
  obtain ⟨supply, closeCalls⟩ := s
  cases supply with
  | contents rest isOpen =>
    obtain ⟨rfl, hpos, hfits⟩ := h
    have hneg : ¬ size < 0 := by omega
    refine ⟨rest.take size.toNat, ⟨.contents (rest.drop size.toNat) true, closeCalls⟩, ?_,
      ⟨rfl, hpos, hfits⟩, rfl, ?_, ?_⟩
    · simp [read, hfits, hneg]
    · simp [pending]
    · intro hnil
      have : size.toNat ≠ 0 := by omega
      simpa [pending, List.take_eq_nil_iff, this] using hnil
  | script portions =>
    cases portions with
    | nil => exact ⟨[], _, rfl, h, rfl, rfl, fun _ => rfl⟩
    | cons p portions =>
      obtain ⟨b, bs, rfl⟩ := h p (List.mem_cons_self ..)
      refine ⟨b :: bs, ⟨.script portions, closeCalls⟩, rfl, ?_, rfl, ?_, ?_⟩
      · exact fun q hq => h q (List.mem_cons_of_mem _ hq)
      · simp [pending]
      · intro hnil
        cases hnil

/-- Contents flow for every positive size that fits into a machine word. -/
theorem flows_ofBytes (data : Bytes) {size : Int} (hpos : 0 < size)
    (hfits : MachineWord.Fits size) : (ofBytes data).Flows size :=
  ⟨rfl, hpos, hfits⟩

/-- A request that does not fit into a machine word is not answered from memory. -/
theorem read_ofBytes {size : Int} (h : ¬ MachineWord.Fits size) (data : Bytes) :
    (ofBytes data).read size = (.error .tooWide, ofBytes data) := by
  simp only [read, ofBytes, h, not_false_eq_true, if_true]

/-- A script of portions none of which is empty flows, whatever is asked for. -/
theorem flows_ofPortions {portions : List Bytes} (h : ∀ p ∈ portions, p ≠ []) (size : Int) :
    (ofPortions (portions.map some)).Flows size := by
  intro p hp
  obtain ⟨bs, hbs, rfl⟩ := List.mem_map.mp hp
  cases bs with
  | nil => exact absurd rfl (h _ hbs)
  | cons b bs => exact ⟨b, bs, rfl⟩

@[simp] theorem pending_ofPortions (portions : List Bytes) :
    (ofPortions (portions.map some)).pending = portions.flatten := by
  simp [pending, ofPortions, Function.comp_def]

/-- The sources that hand out `data` when they are asked for portions of the given size. -/
inductive Delivers (data : Bytes) (size : Nat) : Source → Prop where
  | contents : MachineWord.Fits size → Delivers data size (.ofBytes data)
  | portions {ps : List Bytes} : (∀ p ∈ ps, p ≠ []) → ps.flatten = data →
    Delivers data size (.ofPortions (ps.map some))

end Source

/-- An open input over a flowing source that will hand out `bs`, after the `n` bytes that it has
handed out already. -/
structure Input.Holds (bs : Bytes) (n : Nat) (i : Input) : Prop where
  flows : i.source.Flows i.bufferSize
  pending : i.unread ++ i.source.pending = bs
  consumed : i.consumed = n
  isOpen : i.closed = false
  neverClosed : i.source.closeCalls = 0

/-- An input over a source that delivers `data` holds it. -/
theorem Source.Delivers.holds {data : Bytes} {size : Nat} {source : Source}
    (h : source.Delivers data size) (hpos : 0 < size) :
    Input.Holds data 0 { source, bufferSize := size } := by
  cases h with
  | contents hfits =>
    have hpos' : 0 < (size : Int) := by omega
    exact ⟨flows_ofBytes data hpos' hfits, rfl, rfl, rfl, rfl⟩
  | portions hne hdata =>
    subst hdata
    exact ⟨flows_ofPortions hne _, pending_ofPortions _, rfl, rfl, rfl⟩

namespace Read

open Input

/-- An input that holds a byte hands it out. -/
theorem next_of_holds_cons {b : UInt8} {bs : Bytes} {n : Nat} {i : Input}
    (h : Holds (b :: bs) n i) (needed : Nat) :
    ∃ i', next needed i = .ok b i' ∧ Holds bs (n + 1) i' := by
  obtain ⟨hflows, hpending, rfl, hopen, hclose⟩ := h
  unfold next
  cases hu : i.unread with
  | cons c rest =>
    rw [hu, List.cons_append, List.cons.injEq] at hpending
    obtain ⟨rfl, rfl⟩ := hpending
    exact ⟨_, rfl, hflows, rfl, rfl, hopen, hclose⟩
  | nil =>
    rw [hu, List.nil_append] at hpending
    obtain ⟨portion, s', hr, hs', hc, hp, hnil⟩ := Source.read_of_flows hflows
    cases portion with
    | nil => rw [hnil rfl] at hpending; cases hpending
    | cons c rest =>
      rw [hp, List.cons_append, List.cons.injEq] at hpending
      obtain ⟨rfl, rfl⟩ := hpending
      simp only [hr]
      exact ⟨_, rfl, hs', rfl, rfl, hopen, hc.trans hclose⟩

/-- An input that holds nothing cuts the read short and stays as it is. -/
theorem next_of_holds_nil {n : Nat} {i : Input} (h : Holds [] n i) (needed : Nat) :
    ∃ i', next needed i = .error (.truncated n needed) i' ∧ Holds [] n i' := by
  obtain ⟨hflows, hpending, rfl, hopen, hclose⟩ := h
  obtain ⟨hu, hs⟩ := List.append_eq_nil_iff.mp hpending
  obtain ⟨portion, s', hr, hs', hc, hp, -⟩ := Source.read_of_flows hflows
  rw [hs] at hp
  obtain ⟨rfl, hp'⟩ := List.append_eq_nil_iff.mp hp.symm
  unfold next
  simp only [hu, hr]
  exact ⟨_, rfl, hs', by simpa [hu] using hp', rfl, hopen, hc.trans hclose⟩

/-- With no byte at hand the read fails where its source does. -/
theorem next_of_read_eq_error {i : Input} {e : Source.Error} {s : Source} (hu : i.unread = [])
    (h : i.source.read i.bufferSize = (.error e, s)) (needed : Nat) :
    next needed i = .error (.source e) { i with source := s } := by
  unfold next
  simp only [hu, h]

/-- A header whose first byte cannot be read fails as that read does. -/
theorem header_of_next_eq_error {i i' : Input} {e : ReadError}
    (h : next fixedLetters.length i = .error e i') (p : Profile) : header p i = .error e i' := by
  have hb : bytes fixedLetters.length i = .error e i' := by
    rw [show bytes fixedLetters.length = _ from collectInto_succ next 4 []]
    exact bind_of_error h
  exact bind_of_error (bind_of_error hb)

end Read

/-- A comparison of inputs that hold bytes, after as many handed out, is sound when reading a byte
keeps to it. -/
theorem Comparison.sound_of_holds {c : Comparison Input}
    (hnear : ∀ i j : Input, c.near i j → ∃ bs cs n, Input.Holds bs n i ∧ Input.Holds cs n j)
    (hnext : ∀ (needed : Nat) (i j : Input), c.near i j →
      c.Follows (Read.next needed i) (Read.next needed j))
    (hverdict : ∀ e : ReadError, e.isVerdict = true → c.shared e) : c.Sound where
  next := hnext
  verdict := hverdict
  consumed := by
    intro i j h
    obtain ⟨bs, cs, n, hi, hj⟩ := hnear i j h
    rw [hi.consumed, hj.consumed]
  closeCalls := by
    intro i j h
    obtain ⟨bs, cs, n, hi, hj⟩ := hnear i j h
    rw [hi.neverClosed, hj.neverClosed]
  isOpen := by
    intro i j h
    obtain ⟨bs, cs, n, hi, hj⟩ := hnear i j h
    exact ⟨hi.isOpen, hj.isOpen⟩

namespace Session

/-- A fresh session whose first byte cannot be read stays as it is, unless that is a fault of the
snapshot. -/
theorem next_of_next_eq_error {s : Session} {e : ReadError} (hp : s.phase = .fresh)
    (he : e.isFault = false)
    (h : Read.next Read.fixedLetters.length s.intake.input = .error e s.intake.input) :
    s.next = (.error (.reading e), s) := by
  have hh : ReadRecord.fromInput (Read.header s.profile) s.intake = .error e s.intake := by
    unfold ReadRecord.fromInput
    rw [Read.header_of_next_eq_error h]
  have ho := openSnapshot_of_error hh
  rw [fail, he] at ho
  exact next_of_fresh_error hp ho

/-- Memory that is asked for portions of a size that does not fit into a machine word lets nothing
be read. -/
theorem next_start_of_not_fits {p : Profile} (h : ¬ MachineWord.Fits p.bufferSize)
    (data : Bytes) : (start p (.ofBytes data)).next =
      (.error (.reading (.source .tooWide)), start p (.ofBytes data)) := by
  have hn := Read.next_of_read_eq_error (i := (start p (.ofBytes data)).intake.input) rfl
    (Source.read_ofBytes h data) Read.fixedLetters.length
  exact next_of_next_eq_error (s := start p (.ofBytes data)) rfl rfl hn

theorem drain_start_of_not_fits {p : Profile} (h : ¬ MachineWord.Fits p.bufferSize)
    (data : Bytes) : (start p (.ofBytes data)).drain none =
      (.failed (.reading (.source .tooWide)), start p (.ofBytes data)) :=
  drain_of_error nofun (next_start_of_not_fits h data)

end Session

end RedisDump
