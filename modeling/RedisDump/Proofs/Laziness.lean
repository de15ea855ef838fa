import RedisDump.Proofs.Envelope
import RedisDump.Session.Steps

/-!
# Laziness

A session captures the envelopes of packed values and decodes none of them. Two strings of bytes of
the same length may therefore differ wherever bytes lie raw in an envelope that a drain comes to
(`Session.Captured`). The drains end in the same way and leave sessions that look alike, with
entries that are the same when blank; that an envelope is corrupt is told only by its own entry,
when its values are asked for (`Session.envelopes_unseen`).

A read faces a read over the other string (`Session.next_faces`) as long as the strings agree where
it reads and looks, and so do the reads of a drain, one after the other (`Session.drain_veiled`).
-/

namespace RedisDump

/-- Entries that are the same when blank are counted the same. -/
theorem Entry.counted_of_blank {e e' : Entry Packed} (h : e.blank = e'.blank) :
    e.counted = e'.counted := by
  have hblank (e : Entry Packed) : e.blank.counted = e.counted := by cases e <;> rfl
  rw [← hblank e, h, hblank e']

namespace Session

open ReadRecord (EntryPlaces fromInput)

variable {s s' t : Session} {data data' : Bytes}

/-! ### The places that a drain does not look at -/

/-- The places of the bytes that lie raw in the envelope of the next entry. -/
def Unseen (s : Session) (k : Nat) : Prop :=
  match s.phase with
  | .ready version => EntryPlaces s.profile version s.intake k
  | .fresh => ∃ version s', s.openSnapshot = (.ok version, s') ∧
      EntryPlaces s'.profile version s'.intake k
  | .exhausted _ | .failed _ | .closed _ => False

/-- The places of the bytes that lie raw in the envelopes of the entries that a drain comes to. -/
inductive Captured : Session → Nat → Prop where
  | next {s : Session} {k : Nat} : s.Unseen k → Captured s k
  | later {s s' : Session} {e : Entry Packed} {k : Nat} : s.next = (.ok (some e), s') →
    Captured s' k → Captured s k

theorem bytesRead_openSnapshot (s : Session) (data data' : Bytes) :
    s.openSnapshot.2.bytesRead =
      (besideRecords data data').stop (fromInput (Read.header s.profile) s.intake) := by
  cases hr : fromInput (Read.header s.profile) s.intake with
  | ok version intake =>
    rw [openSnapshot_of_ok hr]
    rfl
  | error e intake =>
    rw [openSnapshot_of_error hr, bytesRead, intake_fail]
    rfl

theorem bytesRead_readEntry (s : Session) (version : Nat) (data data' : Bytes) :
    (s.readEntry version).2.bytesRead =
      (besideRecords data data').stop (ReadRecord.entry s.profile version s.intake) := by
  cases hr : ReadRecord.entry s.profile version s.intake with
  | ok e intake =>
    rw [readEntry_of_ok hr]
    cases e <;> rfl
  | error e intake =>
    rw [readEntry_of_error hr, bytesRead, intake_fail]
    rfl

theorem bytesRead_le_openSnapshot (s : Session) : s.bytesRead ≤ s.openSnapshot.2.bytesRead := by
  rw [bytesRead_openSnapshot s [] []]
  exact ((Recordwise.input (.header s.profile)).blind rfl s.intake).grows

theorem bytesRead_le_readEntry (s : Session) (version : Nat) :
    s.bytesRead ≤ (s.readEntry version).2.bytesRead := by
  rw [bytesRead_readEntry s version [] []]
  exact (ReadRecord.blind_entry rfl s.profile version s.intake).grows

/-- What has been read stays read. -/
theorem bytesRead_le_next (s : Session) : s.bytesRead ≤ s.next.2.bytesRead := by
  refine next_invariant (P := fun t => s.bytesRead ≤ t.bytesRead) ?_ ?_ (Nat.le_refl _)
  · intro t _ ht
    exact Nat.le_trans ht (bytesRead_le_openSnapshot t)
  · intro t version _ ht
    exact Nat.le_trans ht (bytesRead_le_readEntry t version)

theorem le_of_entryPlaces {p : Profile} {version k : Nat} {i : Intake}
    (h : EntryPlaces p version i k) : i.input.consumed ≤ k :=
  (@ReadRecord.blind_entry [] [] rfl p version i).lower k h

/-- The envelope of the next entry lies ahead. -/
theorem le_of_unseen {k : Nat} (h : s.Unseen k) : s.bytesRead ≤ k := by
  unfold Unseen at h
  split at h
  · exact le_of_entryPlaces h
  · obtain ⟨version, s', ho, hk⟩ := h
    have hle := bytesRead_le_openSnapshot s
    rw [ho] at hle
    exact Nat.le_trans hle (le_of_entryPlaces hk)
  · exact h.elim
  · exact h.elim
  · exact h.elim

theorem le_of_captured {k : Nat} (h : Captured s k) : s.bytesRead ≤ k := by
  induction h with
  | next h => exact le_of_unseen h
  | @later s s' e k hs _ ih =>
    have hle := bytesRead_le_next s
    rw [hs] at hle
    exact Nat.le_trans hle ih

theorem lt_of_readEntry {e : Entry Packed} {version k : Nat}
    (hs : s.readEntry version = (.ok (some e), s'))
    (h : EntryPlaces s.profile version s.intake k) : k < s'.bytesRead := by
  cases hr : ReadRecord.entry s.profile version s.intake with
  | ok e' intake =>
    have hstop := bytesRead_readEntry s version [] []
    rw [hs, hr] at hstop
    rw [hstop]
    exact (ReadRecord.blind_entry rfl s.profile version s.intake).upper e' intake hr k h
  | error e' intake =>
    rw [readEntry_of_error hr] at hs
    cases hs

/-- The envelope of an entry has been read when the entry has been. -/
theorem lt_of_unseen {e : Entry Packed} {k : Nat} (hs : s.next = (.ok (some e), s'))
    (h : s.Unseen k) : k < s'.bytesRead := by
  unfold Unseen at h
  split at h
  · rename_i hp
    rw [next_of_ready hp] at hs
    exact lt_of_readEntry hs h
  · rename_i hp
    obtain ⟨version, s₁, ho, hk⟩ := h
    rw [next_of_fresh hp ho] at hs
    exact lt_of_readEntry hs hk
  · exact h.elim
  · exact h.elim
  · exact h.elim

/-- Where the next entry is read, only its own envelope is captured. -/
theorem unseen_of_captured {k : Nat} (h : Captured s k) (hk : k < s.next.2.bytesRead) :
    s.Unseen k := by
  cases h with
  | next h => exact h
  | later hs h =>
    have hle := le_of_captured h
    rw [hs] at hk
    exact absurd hle (Nat.not_le_of_lt hk)

/-- Behind the next entry, what is captured is captured by the entries after it. -/
theorem captured_of_next {e : Entry Packed} {k : Nat} (hs : s.next = (.ok (some e), s'))
    (hk : s'.bytesRead ≤ k) (h : Captured s k) : Captured s' k := by
  cases h with
  | next h => exact absurd hk (Nat.not_le_of_lt (lt_of_unseen hs h))
  | later hs' h =>
    rw [hs] at hs'
    cases hs'
    exact h

/-! ### Sessions that look alike -/

/-- Two sessions in which everything is the same but for what lies ahead, and for the envelopes of
the entries delivered so far. -/
structure LooksLike (s t : Session) : Prop where
  profile : s.profile = t.profile
  phase : s.phase = t.phase
  bytesRead : s.bytesRead = t.bytesRead
  closeCalls : s.closeCalls = t.closeCalls
  counted : s.counted = t.counted
  entries : s.entries.map Entry.blank = t.entries.map Entry.blank
  tallies : s.tallies = t.tallies
  log : s.log = t.log

/-- Two sessions that look alike, over strings of which as much has been read. -/
structure Veiled (data data' : Bytes) (s t : Session) : Prop extends LooksLike s t where
  near : (besideRecords data data').near s.intake t.intake

/-- Two outcomes that face each other: the same error, or values that are alike. -/
inductive Faces (data data' : Bytes) {α : Type} (R : α → α → Prop) :
    Except Error α × Session → Except Error α × Session → Prop where
  | ok {a a' : α} {s t : Session} : R a a' → Veiled data data' s t →
    Faces data data' R (.ok a, s) (.ok a', t)
  | error {e : Error} {s t : Session} : Veiled data data' s t →
    Faces data data' R (.error e, s) (.error e, t)

theorem looksLike_start (p : Profile) (data data' : Bytes) :
    LooksLike (start p (.ofBytes data)) (start p (.ofBytes data')) :=
  ⟨rfl, rfl, rfl, rfl, rfl, rfl, rfl, rfl⟩

theorem veiled_start {p : Profile} (hfits : MachineWord.Fits p.bufferSize) (data data' : Bytes) :
    Veiled data data' (start p (.ofBytes data)) (start p (.ofBytes data')) where
  toLooksLike := looksLike_start p data data'
  near := ⟨⟨Input.midway_start hfits data, Input.midway_start hfits data', rfl⟩, rfl⟩

namespace Veiled

theorem withIntake (h : Veiled data data' s t) {i j : Intake}
    (hij : (besideRecords data data').near i j) :
    Veiled data data' { s with intake := i } { t with intake := j } :=
  { h with
    near := hij
    bytesRead := hij.1.consumed
    closeCalls := hij.1.left.holds.neverClosed.trans hij.1.right.holds.neverClosed.symm }

theorem fail (h : Veiled data data' s t) (e : ReadError) :
    Veiled data data' (s.fail e) (t.fail e) := by
  unfold Session.fail
  split
  · exact { h with near := h.near, phase := by rw [h.phase] }
  · exact h

theorem accept (h : Veiled data data' s t) (version : Nat) :
    Veiled data data' (s.accept version) (t.accept version) :=
  { h with
    near := h.near
    phase := rfl
    tallies := by simp only [Session.accept, h.tallies]
    log := by simp only [Session.accept, h.log] }

theorem advance (h : Veiled data data' s t) (version : Nat) {e e' : Entry Packed}
    (he : e.blank = e'.blank) :
    Veiled data data' (s.advance version e) (t.advance version e') := by
  cases e with
  | eof checksum =>
    have he' : e' = .eof checksum := by
      cases e' with
      | eof checksum' => exact he.symm
      | selectDb | resizeDb | aux | keyValue => cases he
    subst he'
    exact
      { h with
        near := h.near
        phase := rfl
        log := by simp only [Session.advance, h.log, h.bytesRead] }
  | selectDb | resizeDb | aux | keyValue => cases e' with
    | eof checksum' => cases he
    | selectDb | resizeDb | aux | keyValue => exact h

theorem deliver (h : Veiled data data' s t) {e e' : Entry Packed} (he : e.blank = e'.blank) :
    Veiled data data' (s.deliver e) (t.deliver e') :=
  { h with
    near := h.near
    counted := h.bytesRead
    entries := by simp only [entries_deliver, Array.map_push, h.entries, he]
    tallies := by
      simp only [Session.deliver, h.tallies, h.bytesRead, h.counted, Entry.counted_of_blank he] }

end Veiled

/-! ### Reads -/

section

variable (hlen : data.length = data'.length)

include hlen

theorem openSnapshot_faces (h : Veiled data data' s t)
    (hsame : ∀ k, s.bytesRead ≤ k → k < s.openSnapshot.2.bytesRead → data[k]? = data'[k]?) :
    Faces data data' Eq s.openSnapshot t.openSnapshot := by
  have hblind := (Recordwise.input (.header s.profile)).blind hlen s.intake
  have hm : (besideRecords data data').Match Eq (fromInput (Read.header s.profile) s.intake)
      (fromInput (Read.header t.profile) t.intake) := by
    rw [← h.profile]
    exact hblind.follows t.intake h.near fun k hlo hhi _ =>
      hsame k hlo (by rwa [bytesRead_openSnapshot s data data'])
  unfold openSnapshot
  generalize fromInput (Read.header s.profile) s.intake = x,
    fromInput (Read.header t.profile) t.intake = y at hm
  cases hm with
  | ok ha hij =>
    subst ha
    exact .ok rfl ((h.withIntake hij).accept _)
  | error hij => exact .error ((h.withIntake hij).fail _)

theorem readEntry_faces (h : Veiled data data' s t) {version : Nat}
    (hsame : ∀ k, s.bytesRead ≤ k → k < (s.readEntry version).2.bytesRead →
      ¬ EntryPlaces s.profile version s.intake k → data[k]? = data'[k]?) :
    Faces data data' (fun o o' => o.map Entry.blank = o'.map Entry.blank)
      (s.readEntry version) (t.readEntry version) := by
  have hblind := ReadRecord.blind_entry hlen s.profile version s.intake
  have hm : (besideRecords data data').Match (fun e e' => e.blank = e'.blank)
      (ReadRecord.entry s.profile version s.intake)
      (ReadRecord.entry t.profile version t.intake) := by
    rw [← h.profile]
    exact hblind.follows t.intake h.near fun k hlo hhi hk =>
      hsame k hlo (by rwa [bytesRead_readEntry s version data data']) hk
  unfold readEntry
  generalize ReadRecord.entry s.profile version s.intake = x,
    ReadRecord.entry t.profile version t.intake = y at hm
  cases hm with
  | ok he hij =>
    exact .ok (congrArg some he) (((h.withIntake hij).advance version he).deliver he)
  | error hij => exact .error ((h.withIntake hij).fail _)

/-- **A read does not look at the envelope that it captures.** -/
theorem next_faces (h : Veiled data data' s t)
    (hsame : ∀ k, s.bytesRead ≤ k → k < s.next.2.bytesRead → ¬ s.Unseen k →
      data[k]? = data'[k]?) :
    Faces data data' (fun o o' => o.map Entry.blank = o'.map Entry.blank) s.next t.next := by
  have hphase := h.phase
  cases hp : s.phase with
  | closed version? =>
    simp only [next, ← hphase, hp]
    exact .error h
  | failed version? =>
    simp only [next, ← hphase, hp]
    exact .error h
  | exhausted version =>
    simp only [next, ← hphase, hp]
    exact .ok rfl h
  | ready version =>
    rw [next_of_ready hp] at hsame ⊢
    rw [next_of_ready (hphase.symm.trans hp)]
    refine readEntry_faces hlen h fun k hlo hhi hk => hsame k hlo hhi ?_
    simpa only [Unseen, hp] using hk
  | fresh =>
    have hpt : t.phase = .fresh := hphase.symm.trans hp
    have hle := bytesRead_le_openSnapshot s
    cases ho : s.openSnapshot with
    | mk answer s₁ =>
      rw [ho] at hle
      -- the envelope lies behind the header
      have hbehind : ∀ k, s.Unseen k → s₁.bytesRead ≤ k := by
        intro k hk
        simp only [Unseen, hp, ho] at hk
        obtain ⟨version, s₂, heq, hk⟩ := hk
        cases heq
        exact le_of_entryPlaces hk
      have hnext : s₁.bytesRead ≤ s.next.2.bytesRead := by
        cases answer with
        | ok version =>
          rw [next_of_fresh hp ho]
          exact bytesRead_le_readEntry s₁ version
        | error e => simp [next_of_fresh_error hp ho]
      have hfaces := openSnapshot_faces hlen h fun k hlo hhi => by
        rw [ho] at hhi
        refine hsame k hlo (Nat.lt_of_lt_of_le hhi hnext) fun hk => ?_
        exact absurd (hbehind k hk) (Nat.not_le_of_lt hhi)
      generalize hot : t.openSnapshot = y at hfaces
      rw [ho] at hfaces
      cases hfaces with
      | @ok version _ _ t₁ ha h₁ =>
        subst ha
        rw [next_of_fresh hp ho] at hsame ⊢
        rw [next_of_fresh hpt hot]
        refine readEntry_faces hlen h₁ fun k hlo hhi hk => hsame k (Nat.le_trans hle hlo) hhi ?_
        simp only [Unseen, hp, ho]
        rintro ⟨_, _, heq, hk'⟩
        cases heq
        exact hk hk'
      | error h₁ =>
        rw [next_of_fresh_error hp ho, next_of_fresh_error hpt hot]
        exact .error h₁

theorem next_faces_of_captured (h : Veiled data data' s t)
    (hsame : ∀ k, s.bytesRead ≤ k → ¬ Captured s k → data[k]? = data'[k]?) :
    Faces data data' (fun o o' => o.map Entry.blank = o'.map Entry.blank) s.next t.next :=
  next_faces hlen h fun k hlo hhi hk => hsame k hlo fun hc => hk (unseen_of_captured hc hhi)

/-- **A drain does not look at the envelopes that it comes to.** -/
theorem drain_veiled (h : Veiled data data' s t)
    (hsame : ∀ k, s.bytesRead ≤ k → ¬ Captured s k → data[k]? = data'[k]?) (limit : Option Nat) :
    (s.drain limit).1 = (t.drain limit).1 ∧
      Veiled data data' (s.drain limit).2 (t.drain limit).2 := by
  fun_induction drain s limit generalizing t with
  | case1 s =>
    rw [drain_zero]
    exact ⟨rfl, h⟩
  | case2 s limit hl e s' hs ih =>
    have hn := next_faces_of_captured hlen h hsame
    generalize ht : t.next = y at hn
    rw [hs] at hn
    cases hn with
    | @ok _ o' _ t' ho hst =>
      cases o' with
      | none => cases ho
      | some e' =>
        have hle := bytesRead_le_next s
        rw [hs] at hle
        rw [drain_of_some hl ht]
        refine ih hst fun k hlo hk => hsame k (Nat.le_trans hle hlo) fun hc => ?_
        exact hk (captured_of_next hs hlo hc)
  | case3 s limit hl s' hs =>
    have hn := next_faces_of_captured hlen h hsame
    generalize ht : t.next = y at hn
    rw [hs] at hn
    cases hn with
    | @ok _ o' _ t' ho hst =>
      cases o' with
      | none =>
        rw [drain_of_none hl ht]
        exact ⟨rfl, hst⟩
      | some e' => cases ho
  | case4 s limit hl e s' hs =>
    have hn := next_faces_of_captured hlen h hsame
    generalize ht : t.next = y at hn
    rw [hs] at hn
    cases hn with
    | error hst =>
      rw [drain_of_error hl ht]
      exact ⟨rfl, hst⟩

end

/-! ### Corrupt envelopes -/

/-- An entry that cannot be decoded is refused whenever its values are asked for, and the attempt is
counted by that entry; nothing else changes. -/
def RefusesAlone (s : Session) : Prop :=
  ∀ (i : Int) (j : Fin s.entries.size) (fields : KeyFields) (packed : Packed) (attempts : Nat)
    (e : PackedError), Position.place s.entries.size i = .ok j →
      s.entries[j] = .keyValue fields (.pending packed attempts) → packed.decode = .error e →
        s.ask (.values i) = (.error (.asked (.values (.decoding e))),
          { s with
            entries := s.entries.set j (.keyValue fields (.pending packed (attempts + 1))) })

theorem refusesAlone (s : Session) : s.RefusesAlone := by
  intro i j fields packed attempts e hi hj he
  have hforce : (Deferred.pending packed attempts).force =
      (.error e, .pending packed (attempts + 1)) := by
    rw [Deferred.force_pending, he]
  simp only [ask, Entry.step, Entry.atPosition, hi, Entry.askValues, hj, Entry.values?,
    Deferred.step, Deferred.withElements, hforce, Entry.withValues]
  rfl

/-- **Envelopes are not looked at before their values are asked for.** Let two strings of the same
length differ only in bytes that lie raw in envelopes of the entries that a drain of the first one
comes to. Then the drains end in the same way after each number of entries, and leave sessions that
look alike. That an envelope is corrupt is told when the values of its entry are asked for, whatever
has been done before, and that is of no consequence for anything else. -/
theorem envelopes_unseen (p : Profile) {data data' : Bytes} (hlen : data.length = data'.length)
    (hsame : ∀ k, ¬ Captured (start p (.ofBytes data)) k → data[k]? = data'[k]?) :
    (∀ limit, ((start p (.ofBytes data)).drain limit).1 =
        ((start p (.ofBytes data')).drain limit).1 ∧
      LooksLike ((start p (.ofBytes data)).drain limit).2
        ((start p (.ofBytes data')).drain limit).2) ∧
    ∀ ops, ((start p (.ofBytes data')).run ops).RefusesAlone := by
  refine ⟨fun limit => ?_, fun ops => refusesAlone _⟩
  by_cases hfits : MachineWord.Fits p.bufferSize
  · have hstart := veiled_start hfits data data'
    obtain ⟨hend, hlike⟩ := drain_veiled hlen hstart (fun k _ hk => hsame k hk) limit
    exact ⟨hend, hlike.toLooksLike⟩
  · -- nothing can be read from memory
    have hlike := looksLike_start p data data'
    by_cases hl : limit = some 0
    · subst hl
      rw [drain_zero, drain_zero]
      exact ⟨rfl, hlike⟩
    · rw [drain_of_error hl (next_start_of_not_fits hfits data),
        drain_of_error hl (next_start_of_not_fits hfits data')]
      exact ⟨rfl, hlike⟩

/-- A snapshot of version 11 that ends behind its only key, `k`, a set of the element `a` in a
listpack. -/
def setSnapshot : Bytes :=
  [0x52, 0x45, 0x44, 0x49, 0x53, 0x30, 0x30, 0x31, 0x31, 20, 1, 0x6B, 10, 10, 0, 0, 0, 1, 0, 0x81,
    0x61, 2, 0xFF]

/-- The same snapshot with a listpack that has no end. -/
def corruptSnapshot : Bytes :=
  setSnapshot.set 22 0

theorem captured_setSnapshot : Captured (start .standard (.ofBytes setSnapshot)) 22 := by
  let behind (n : Nat) : Intake := .behind .standard setSnapshot n
  have hheader : fromInput (Read.header Profile.standard)
      (start .standard (.ofBytes setSnapshot)).intake = .ok 11 (behind 9) := rfl
  have hcode : fromInput Read.byte (behind 9) = .ok 20 (behind 10) := rfl
  have hgate : ReadRecord.gate .standard 11 (.value .setListpack) (behind 10) =
      .ok () (behind 10) := rfl
  have hkey : fromInput (Read.text Profile.standard.textLimit) (behind 10) =
      .ok [0x6B] (behind 12) := rfl
  have hform : Read.byte (behind 12).input = .ok 10 (behind 13).input := rfl
  have hraw : Read.textPlaces Profile.standard.textLimit (behind 12).input 22 :=
    ⟨10, _, hform, 10, _, rfl, by decide, by decide, by decide⟩
  have hplaces : ReadRecord.placesBehind .standard 11 20 (behind 10) 22 :=
    ⟨(), _, hgate, [0x6B], _, hkey, hraw⟩
  exact .next ⟨11, _, openSnapshot_of_ok hheader, .own ⟨20, _, hcode, hplaces⟩⟩

/-- A set whose listpack is damaged, so that it cannot be decoded, is delivered like the set that it
was. -/
theorem envelopes_unseen_corruptSnapshot :
    (Packed.listpack (setSnapshot.drop 13)).decode = .ok [[0x61]] ∧
      (∃ e, (Packed.listpack (corruptSnapshot.drop 13)).decode = .error e) ∧
      setSnapshot.length = corruptSnapshot.length ∧
      (∀ k, ¬ Captured (start .standard (.ofBytes setSnapshot)) k →
        setSnapshot[k]? = corruptSnapshot[k]?) ∧
      ∀ limit, ((start .standard (.ofBytes setSnapshot)).drain limit).1 =
          ((start .standard (.ofBytes corruptSnapshot)).drain limit).1 ∧
        LooksLike ((start .standard (.ofBytes setSnapshot)).drain limit).2
          ((start .standard (.ofBytes corruptSnapshot)).drain limit).2 := by
  have hsame : ∀ k, ¬ Captured (start .standard (.ofBytes setSnapshot)) k →
      setSnapshot[k]? = corruptSnapshot[k]? := by
    intro k hk
    have hne : 22 ≠ k := by
      rintro rfl
      exact hk captured_setSnapshot
    exact (List.getElem?_set_ne hne).symm
  have hlen : setSnapshot.length = corruptSnapshot.length := rfl
  exact ⟨rfl, ⟨_, rfl⟩, hlen, hsame, (envelopes_unseen .standard hlen hsame).1⟩

end Session

end RedisDump
