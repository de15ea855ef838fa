import RedisDump.Proofs.Consumption
import RedisDump.Proofs.Laziness

/-!
# Iterations

A read goes round in two places: over the records up to its entry, and over the elements, pairs or
nodes of the entry's value. How often it should go round a value is declared in the snapshot and may
be any number of eight bytes. So that there is something to bound, the readers with a loop are given
once more, with a count of the iterations that are started. A counted reader does what the reader
does, and as an iteration does not come to its end without a byte, it has started no more of them
than it has taken bytes, and one more if it fails (`Counts`). That and the bytes that a session
spends on its entries say how it makes progress (`progresses_run`).
-/

namespace RedisDump

/-- A computation that counts iterations beside its state. -/
abbrev Counting (ε σ α : Type) := EStateM ε (σ × Nat) α

variable {ε σ α β : Type}

/-! ### Counted loops -/

namespace Counting

/-- A computation in which nothing is counted. -/
def lift (r : EStateM ε σ α) : Counting ε σ α := fun s =>
  match r s.1 with
  | .ok a s' => .ok a (s', s.2)
  | .error e s' => .error e (s', s.2)

/-- An iteration of a loop, which counts as soon as it starts. -/
def iteration (r : EStateM ε σ α) : Counting ε σ α := fun s =>
  lift r (s.1, s.2 + 1)

/-- A counted sequence, with an iteration for each element. -/
def loop (item : Nat → EStateM ε σ α) (n : Nat) : Counting ε σ (List α) :=
  collect (fun k => iteration (item k)) n

end Counting

/-- The end of a counted computation is that of the computation itself, and no more iterations have
been started than units spent, or one more if it failed. -/
inductive CountedEnd (spent : σ → Nat) (s : σ) (n : Nat) :
    EStateM.Result ε (σ × Nat) α → EStateM.Result ε σ α → Prop where
  | ok {a : α} {s' : σ} {n' : Nat} : n' + spent s ≤ n + spent s' →
    CountedEnd spent s n (.ok a (s', n')) (.ok a s')
  | error {e : ε} {s' : σ} {n' : Nat} : n' + spent s ≤ n + spent s' + 1 →
    CountedEnd spent s n (.error e (s', n')) (.error e s')

/-- The first computation is the second one with a count of its iterations, each of which is paid
for. -/
def Counts (spent : σ → Nat) (t : Counting ε σ α) (r : EStateM ε σ α) : Prop :=
  ∀ s n, CountedEnd spent s n (t (s, n)) (r s)

/-- A computation that takes nothing back of what has been spent. -/
def Forward (spent : σ → Nat) (r : EStateM ε σ α) : Prop :=
  ∀ s, Ended (fun s' => spent s ≤ spent s') Anything Anything (r s)

namespace Counts

variable {spent : σ → Nat}

theorem lift {r : EStateM ε σ α} (h : Forward spent r) : Counts spent (Counting.lift r) r := by
  intro s n
  have hend := h s
  simp only [Counting.lift]
  generalize r s = x at hend
  cases hend with
  | ok _ hs => exact .ok (Nat.add_le_add_left hs n)
  | error _ hs => exact .error (Nat.le_succ_of_le (Nat.add_le_add_left hs n))

/-- An iteration that comes to its end has spent something. -/
theorem iteration {r : EStateM ε σ α} (h : Forward spent r)
    (hlt : ∀ s a s', r s = .ok a s' → spent s < spent s') :
    Counts spent (Counting.iteration r) r := by
  intro s n
  have hend := h s
  have hok := hlt s
  simp only [Counting.iteration, Counting.lift]
  generalize r s = x at hend hok
  cases hend with
  | ok _ _ =>
    have := hok _ _ rfl
    exact .ok (by omega)
  | error _ hs => exact .error (by omega)

theorem pure (a : α) : Counts spent (Pure.pure a : Counting ε σ α) (Pure.pure a) :=
  fun _ _ => .ok (Nat.le_refl _)

theorem bind {t : Counting ε σ α} {r : EStateM ε σ α} {g : α → Counting ε σ β}
    {f : α → EStateM ε σ β} (h : Counts spent t r) (hf : ∀ a, Counts spent (g a) (f a)) :
    Counts spent (t >>= g) (r >>= f) := by
  intro s n
  have hfirst := h s n
  change CountedEnd spent s n (EStateM.bind t g (s, n)) (EStateM.bind r f s)
  unfold EStateM.bind
  generalize t (s, n) = x, r s = y at hfirst
  cases hfirst with
  | error hn => exact .error hn
  | @ok a s₁ n₁ hn =>
    have hsecond := hf a s₁ n₁
    dsimp only
    generalize g a (s₁, n₁) = x, f a s₁ = y at hsecond
    cases hsecond with
    | ok hn' => exact .ok (by omega)
    | error hn' => exact .error (by omega)

theorem collectInto {item' : Nat → Counting ε σ α} {item : Nat → EStateM ε σ α}
    (h : ∀ k, Counts spent (item' k) (item k)) (n : Nat) (done : List α) :
    Counts spent (collectInto item' n done) (collectInto item n done) := by
  induction n generalizing done with
  | zero => exact pure _
  | succ n ih =>
    rw [collectInto_succ, collectInto_succ]
    exact (h (n + 1)).bind fun a => ih (a :: done)

theorem loop {item : Nat → EStateM ε σ α}
    (h : ∀ k, Counts spent (Counting.iteration (item k)) (item k)) (n : Nat) :
    Counts spent (Counting.loop item n) (collect item n) :=
  collectInto h n []

end Counts

/-! ### Values -/

theorem Bytewise.forward {r : Read α} (h : Bytewise r) : Forward Input.consumed r :=
  fun i => (h.onward i i (.refl i)).keeps fun _ ho => ho.consumed

theorem Bytewise.lift {r : Read α} (h : Bytewise r) :
    Counts Input.consumed (Counting.lift r) r :=
  .lift h.forward

/-- An iteration whose reader does not succeed without a byte. -/
theorem Bytewise.iteration {r : Read α} (h : Bytewise r) (he : Eager Input.remaining r) :
    Counts Input.consumed (Counting.iteration r) r := by
  refine .iteration h.forward fun i a j hr => ?_
  have hend := h.onward i i (.refl i)
  rw [hr] at hend
  exact hend.of_ok.2.consumed_lt (he i a j hr)

namespace Counting

/-- A counted sequence of strings. -/
def texts (p : Profile) (collection : Collection) : Counting ReadError Input (List Bytes) := do
  let n ← lift (Read.count collection p.elementLimit)
  loop (fun _ => Read.text p.textLimit) n

/-- A counted sequence of pairs, as a flat list. -/
def pairs (p : Profile) (collection : Collection) (second : Read Bytes) :
    Counting ReadError Input (List Bytes) := do
  let n ← lift (Read.count collection p.pairLimit)
  return Bytes.flattenPairs (← loop (fun _ => Read.pair p second) n)

/-- The nodes of a list that is split into nodes of two forms. -/
def nodes (p : Profile) : Counting ReadError Input (List Quicklist.Node) := do
  let n ← lift (Read.count .quicklists p.elementLimit)
  loop (fun _ => Read.node p) n

/-- A value of the given kind. A single string, or a container that is captured as one, is read
without a loop. -/
def value (p : Profile) (cutoff : Int) : ValueKind → Counting ReadError Input (Deferred Packed)
  | .list => return .ofElements (← texts p .lists)
  | .set => return .ofElements (← texts p .sets)
  | .sortedSet => return .ofElements (← pairs p .sortedSets Read.scoreText)
  | .sortedSet2 => return .ofElements (← pairs p .sortedSets Read.scoreBinary)
  | .hash => return .ofElements (← pairs p .hashes (Read.text p.textLimit))
  | .listQuicklist => return .capture (.quicklist cutoff (← texts p .quicklists))
  | .listQuicklist2 => return .capture (.quicklist2 (← nodes p))
  | .string => lift (Read.value p cutoff .string)
  | .hashZipmap => lift (Read.value p cutoff .hashZipmap)
  | .listZiplist => lift (Read.value p cutoff .listZiplist)
  | .setIntset => lift (Read.value p cutoff .setIntset)
  | .sortedSetZiplist => lift (Read.value p cutoff .sortedSetZiplist)
  | .hashZiplist => lift (Read.value p cutoff .hashZiplist)
  | .setListpack => lift (Read.value p cutoff .setListpack)
  | .hashListpack => lift (Read.value p cutoff .hashListpack)
  | .sortedSetListpack => lift (Read.value p cutoff .sortedSetListpack)

end Counting

theorem counts_texts (p : Profile) (collection : Collection) :
    Counts Input.consumed (Counting.texts p collection) (Read.texts p collection) :=
  (Bytewise.count collection _).lift.bind fun n =>
    .loop (fun _ => (Bytewise.text _).iteration (Read.text_eager _)) n

theorem counts_pairs (p : Profile) (collection : Collection) {second : Read Bytes}
    (h : Bytewise second) (hs : Steady Input.remaining second) :
    Counts Input.consumed (Counting.pairs p collection second)
      (Read.pairs p collection second) := by
  have heager : Eager Input.remaining (Read.pair p second) :=
    (Read.text_eager _).bind fun _ => hs.bind fun _ => Steady.pure _
  exact (Bytewise.count collection _).lift.bind fun n =>
    (Counts.loop (fun _ => (Bytewise.pair p h).iteration heager) n).bind fun _ => .pure _

theorem counts_nodes (p : Profile) :
    Counts Input.consumed (Counting.nodes p) (Read.nodes p) := by
  have heager : Eager Input.remaining (Read.node p) :=
    Read.length_eager.bind fun _ => (Read.text_eager _).steady.bind fun _ => Steady.pure _
  exact (Bytewise.count _ _).lift.bind fun n =>
    .loop (fun _ => (Bytewise.node p).iteration heager) n

theorem counts_value (p : Profile) (cutoff : Int) (kind : ValueKind) :
    Counts Input.consumed (Counting.value p cutoff kind) (Read.value p cutoff kind) := by
  have hscore := Read.scoreText_eager.steady
  have hstring := (Read.text_eager p.textLimit).steady
  cases kind with
  | list | set | listQuicklist => exact (counts_texts p _).bind fun _ => .pure _
  | sortedSet => exact (counts_pairs p _ .scoreText hscore).bind fun _ => .pure _
  | sortedSet2 =>
    exact (counts_pairs p _ .scoreBinary Read.scoreBinary_steady).bind fun _ => .pure _
  | hash => exact (counts_pairs p _ (.text _) hstring).bind fun _ => .pure _
  | listQuicklist2 => exact (counts_nodes p).bind fun _ => .pure _
  | string | hashZipmap | listZiplist | setIntset | sortedSetZiplist | hashZiplist | setListpack
  | hashListpack | sortedSetListpack => exact (Bytewise.value p cutoff _).lift

/-! ### Records -/

/-- The number of bytes taken. -/
def Intake.consumed (s : Intake) : Nat :=
  s.input.consumed

theorem Recordwise.lift {r : ReadRecord α} (h : Recordwise r) :
    Counts Intake.consumed (Counting.lift r) r :=
  .lift fun s => (h.onward s.input s (.refl _)).keeps fun _ ho => ho.consumed

namespace Counting

/-- A computation that only reads from the input. -/
def fromInput (t : Counting ReadError Input α) : Counting ReadError Intake α := fun s =>
  match t (s.1.input, s.2) with
  | .ok a i => .ok a ({ s.1 with input := i.1 }, i.2)
  | .error e i => .error e ({ s.1 with input := i.1 }, i.2)

/-- A key with a value of the given kind, which takes what has been noted for it. -/
def keyValue (p : Profile) (version : Nat) (kind : ValueKind) :
    Counting ReadError Intake (Entry Packed) := do
  let key ← lift (ReadRecord.fromInput (Read.text p.textLimit))
  let values ← fromInput (value p (p.cutoffFor version) kind)
  lift do
    let notes := (← get).notes
    modify fun s => { s with notes := {} }
    return .keyValue (notes.fields key kind) values

/-- The key that the byte of a kind of value announces. -/
def keyRecord (p : Profile) (version : Nat) (b : UInt8) :
    Counting ReadError Intake (Entry Packed) :=
  match ValueCode.ofByte? b with
  | some (.known kind) => do
    lift (ReadRecord.gate p version (.value kind))
    keyValue p version kind
  | _ => lift (ReadRecord.keyRecord p version b)

/-- A record, which is an iteration of the loop over the records up to an entry. -/
def record (p : Profile) (version : Nat) : Counting ReadError Intake (Option (Entry Packed)) := do
  let b ← fromInput (iteration Read.byte)
  match Opcode.ofByte? b with
  | some op => lift do
    ReadRecord.gate p version (.opcode op)
    ReadRecord.opcodeBody p version op
  | none => return some (← keyRecord p version b)

end Counting

theorem Counts.fromInput {t : Counting ReadError Input α} {r : Read α}
    (h : Counts Input.consumed t r) :
    Counts Intake.consumed (Counting.fromInput t) (ReadRecord.fromInput r) := by
  intro s n
  have hend := h s.input n
  simp only [Counting.fromInput, ReadRecord.fromInput]
  generalize t (s.input, n) = x, r s.input = y at hend
  cases hend with
  | ok hn => exact .ok hn
  | error hn => exact .error hn

theorem counts_keyValue (p : Profile) (version : Nat) (kind : ValueKind) :
    Counts Intake.consumed (Counting.keyValue p version kind)
      (ReadRecord.keyValue p version kind) := by
  refine (Recordwise.input (.text _)).lift.bind fun key =>
    (counts_value p _ kind).fromInput.bind fun values => Recordwise.lift ?_
  let put (notes : KeyNotes) : ReadRecord (Entry Packed) := do
    modify fun s => { s with notes := {} }
    return .keyValue (notes.fields key kind) values
  exact .consult (f := put) fun _ => .bind (.amend fun _ => {}) fun _ => .pure _

theorem counts_keyRecord (p : Profile) (version : Nat) (b : UInt8) :
    Counts Intake.consumed (Counting.keyRecord p version b)
      (ReadRecord.keyRecord p version b) := by
  unfold Counting.keyRecord
  split
  · rename_i kind hb
    simp only [ReadRecord.keyRecord, hb]
    exact (Recordwise.gate p version _).lift.bind fun _ => counts_keyValue p version kind
  · exact (Recordwise.keyRecord p version b).lift

theorem counts_record (p : Profile) (version : Nat) :
    Counts Intake.consumed (Counting.record p version) (ReadRecord.record p version) := by
  refine (Bytewise.byte.iteration Read.byte_eager).fromInput.bind fun b => ?_
  cases Opcode.ofByte? b with
  | some op =>
    exact (Recordwise.bind (.gate p version _) fun _ => .opcodeBody p version op).lift
  | none => exact (counts_keyRecord p version b).bind fun _ => .pure _

/-- What a counted computation succeeds with, the computation itself does. -/
theorem Counts.of_ok {spent : σ → Nat} {t : Counting ε σ α} {r : EStateM ε σ α}
    (h : Counts spent t r) {s s' : σ × Nat} {a : α} (ht : t s = .ok a s') :
    r s.1 = .ok a s'.1 ∧ s'.2 + spent s.1 ≤ s.2 + spent s'.1 := by
  have hend := h s.1 s.2
  rw [ht] at hend
  generalize hr : r s.1 = y at hend
  cases hend with
  | ok hn => exact ⟨rfl, hn⟩

/-- A failure of a counted computation is one of the computation itself. -/
theorem Counts.of_error {spent : σ → Nat} {t : Counting ε σ α} {r : EStateM ε σ α}
    (h : Counts spent t r) {s s' : σ × Nat} {e : ε} (ht : t s = .error e s') :
    r s.1 = .error e s'.1 ∧ s'.2 + spent s.1 ≤ s.2 + spent s'.1 + 1 := by
  have hend := h s.1 s.2
  rw [ht] at hend
  generalize hr : r s.1 = y at hend
  cases hend with
  | error hn => exact ⟨rfl, hn⟩

/-- The next entry of a snapshot, with an iteration for each record up to it and for each element,
pair or node of its value. -/
def Counting.entry (p : Profile) (version : Nat) :
    Counting ReadError Intake (Entry Packed) := fun s =>
  match _h : record p version s with
  | .error e s => .error e s
  | .ok (some e) s => .ok e s
  | .ok none s => entry p version s
termination_by s => s.1.remaining
decreasing_by exact ReadRecord.record_eager _ _ _ _ _ ((counts_record p version).of_ok _h).1

theorem counts_entry (p : Profile) (version : Nat) :
    Counts Intake.consumed (Counting.entry p version) (ReadRecord.entry p version) := by
  intro s n
  have key : ∀ s : Intake × Nat, CountedEnd Intake.consumed s.1 s.2 (Counting.entry p version s)
      (ReadRecord.entry p version s.1) := by
    intro s
    fun_induction Counting.entry p version s with
    | case1 s e s' h =>
      obtain ⟨hr, hn⟩ := (counts_record p version).of_error h
      rw [ReadRecord.entry_of_error hr]
      exact .error hn
    | case2 s e s' h =>
      obtain ⟨hr, hn⟩ := (counts_record p version).of_ok h
      rw [ReadRecord.entry_of_some hr]
      exact .ok hn
    | case3 s s' h ih =>
      obtain ⟨hr, hn⟩ := (counts_record p version).of_ok h
      rw [ReadRecord.entry_of_none hr]
      generalize Counting.entry p version s' = x, ReadRecord.entry p version s'.1 = y at ih
      cases ih with
      | ok hn' => exact .ok (by omega)
      | error hn' => exact .error (by omega)
  exact key (s, n)

/-! ### Reads -/

namespace Session

variable {total : Nat} {s t : Session}

/-- The next entry of a snapshot of the given version, and the number of iterations. -/
def readEntryCounted (s : Session) (version : Nat) :
    (Except Error (Option (Entry Packed)) × Session) × Nat :=
  match Counting.entry s.profile version (s.intake, 0) with
  | .ok e (intake, n) =>
    ((.ok (some e), (({ s with intake := intake } : Session).advance version e).deliver e), n)
  | .error e (intake, n) =>
    ((.error (.reading e), ({ s with intake := intake } : Session).fail e), n)

/-- The next entry, or nothing after the end of the snapshot, and the number of iterations; a header
is read without a loop. -/
def nextCounted (s : Session) : (Except Error (Option (Entry Packed)) × Session) × Nat :=
  match s.phase with
  | .ready version => s.readEntryCounted version
  | .fresh =>
    match s.openSnapshot with
    | (.ok version, s) => s.readEntryCounted version
    | (.error e, s) => ((.error e, s), 0)
  | .exhausted _ | .failed _ | .closed _ => (s.next, 0)

/-- A read with a number of iterations is the given read, from a session that had read `before`
bytes, and the iterations are paid for with bytes. -/
structure Paid (before : Nat) (counted : (Except Error (Option (Entry Packed)) × Session) × Nat)
    (read : Except Error (Option (Entry Packed)) × Session) : Prop where
  same : counted.1 = read
  iterations : counted.2 + before ≤ read.2.bytesRead + 1
  ofEntry : ∀ e, read.1 = .ok (some e) → counted.2 + before ≤ read.2.bytesRead

theorem readEntry_paid (s : Session) (version : Nat) :
    Paid s.bytesRead (s.readEntryCounted version) (s.readEntry version) := by
  have hcounts := counts_entry s.profile version
  unfold readEntryCounted
  split
  · rename_i e intake n hr
    obtain ⟨hread, hn⟩ := hcounts.of_ok hr
    rw [readEntry_of_ok hread]
    have hle : n + s.bytesRead ≤ intake.consumed := by
      simpa [bytesRead, Intake.consumed] using hn
    have hbytes : ((({ s with intake := intake } : Session).advance version e).deliver e).bytesRead
        = intake.consumed := by simp [bytesRead, Intake.consumed]
    constructor
    · rfl
    · rw [hbytes]
      exact Nat.le_succ_of_le hle
    · intro _ _
      rw [hbytes]
      exact hle
  · rename_i e intake n hr
    obtain ⟨hread, hn⟩ := hcounts.of_error hr
    rw [readEntry_of_error hread]
    constructor
    · rfl
    · simpa [bytesRead, Intake.consumed] using hn
    · intro e' he
      cases he

/-- A read that starts from a session which has read more is paid for all the more. -/
theorem Paid.mono {before before' : Nat}
    {counted : (Except Error (Option (Entry Packed)) × Session) × Nat}
    {read : Except Error (Option (Entry Packed)) × Session} (h : Paid before counted read)
    (hle : before' ≤ before) : Paid before' counted read where
  same := h.same
  iterations := Nat.le_trans (Nat.add_le_add_left hle _) h.iterations
  ofEntry e he := Nat.le_trans (Nat.add_le_add_left hle _) (h.ofEntry e he)

/-- A read without an iteration. -/
theorem paid_of_none (hnext : s.bytesRead ≤ t.bytesRead)
    (answer : Except Error (Option (Entry Packed))) :
    Paid s.bytesRead ((answer, t), 0) (answer, t) where
  same := rfl
  iterations := by
    rw [Nat.zero_add]
    exact Nat.le_succ_of_le hnext
  ofEntry _ _ := by rwa [Nat.zero_add]

theorem next_paid (s : Session) : Paid s.bytesRead s.nextCounted s.next := by
  unfold nextCounted
  split
  · rename_i version hp
    rw [next_of_ready hp]
    exact readEntry_paid s version
  · rename_i hp
    have hopen := bytesRead_le_openSnapshot s
    split
    · rename_i version s' ho
      rw [next_of_fresh hp ho]
      rw [ho] at hopen
      exact (readEntry_paid s' version).mono hopen
    · rename_i e s' ho
      rw [next_of_fresh_error hp ho]
      rw [ho] at hopen
      exact paid_of_none hopen (.error e)
  all_goals exact paid_of_none (bytesRead_le_next s) s.next.1

/-! ### Progress -/

/-- A read that returns an entry has taken a byte for it, and the header before the first one. -/
theorem lt_bytesRead_of_next {e : Entry Packed} (h : s.next = (.ok (some e), t)) :
    s.bytesRead + (if s.phase = .fresh then Read.headerWidth else 0) < t.bytesRead := by
  have hentry : ∀ {u : Session} {version : Nat}, u.readEntry version = (.ok (some e), t) →
      u.bytesRead < t.bytesRead := by
    intro u version hu
    unfold readEntry at hu
    split at hu
    · rename_i hr
      cases hu
      simpa [bytesRead] using consumed_lt_of_entry hr
    · cases hu
  cases hturn : s.phase with
  | ready version =>
    rw [next_of_ready hturn] at h
    simpa using hentry h
  | fresh =>
    cases hr : ReadRecord.fromInput (Read.header s.profile) s.intake with
    | ok version intake =>
      rw [next_of_fresh hturn (openSnapshot_of_ok hr)] at h
      have hwidth := ReadRecord.consumed_header hr
      have hlt := hentry h
      change intake.input.consumed < t.bytesRead at hlt
      rw [if_pos rfl]
      change s.intake.input.consumed + Read.headerWidth < t.bytesRead
      omega
    | error e' intake =>
      rw [next_of_fresh_error hturn (openSnapshot_of_error hr)] at h
      cases h
  | exhausted version =>
    rw [next_of_exhausted hturn] at h
    cases h
  | failed version? =>
    rw [next_of_failed hturn] at h
    cases h
  | closed version? =>
    rw [next_of_closed hturn] at h
    cases h

/-- A run of reads that does not fail comes to the end of the snapshot, unless it has been read
before. -/
theorem drain_last (s : Session) {limit : Option Nat} (hl : limit = none) :
    (s.drain limit).1.failure? = none →
      ∃ got, (s.drain limit).2.entries.toList = s.entries.toList ++ got ∧
        (s.phase.isExhausted = true ∧ got = [] ∨
          ∃ before e, got = before ++ [e] ∧ e.isEnd = true) := by
  fun_induction drain s limit with
  | case1 s => cases hl
  | case2 s limit _ e s' hs ih =>
    intro hfinished
    have hn := s.next_turn
    have he := entries_next s
    rw [hs] at hn he
    obtain ⟨got, hgot, hlast⟩ := ih (by rw [hl]; rfl) hfinished
    refine ⟨e :: got, ?_, .inr ?_⟩
    · rw [hgot, he, delivered, List.append_assoc, List.singleton_append]
    · rcases hlast with ⟨hx, rfl⟩ | ⟨before, e', rfl, hend⟩
      · refine ⟨[], e, rfl, ?_⟩
        cases hn with
        | entry _ ht =>
          cases hend : e.isEnd with
          | true => rfl
          | false =>
            rw [ht, hend] at hx
            cases hx
      · exact ⟨e :: before, e', rfl, hend⟩
  | case3 s limit _ s' hs =>
    intro _
    have hn := s.next_turn
    have he := entries_next s
    rw [hs] at hn he
    refine ⟨[], he, .inl ⟨?_, rfl⟩⟩
    cases hn with
    | exhausted hp =>
      rw [hp]
      rfl
  | case4 s limit _ e s' hs => rintro ⟨⟩

/-- How draining ends: with the end of the snapshot, or with a failure; after the end there is
nothing to drain. All entries that have been returned by then are no more than the bytes of the
source behind its header. -/
def DrainEnds (total : Nat) (s : Session) : Prop :=
  ∃ got failure?, (s.step .drain).1 = .ok (.entries got failure?) ∧
    s.entries.size + got.length ≤ total - Read.headerWidth ∧
    (failure? = none → s.phase.isExhausted = true ∧ got = [] ∨
      ∃ before e, got = before ++ [e] ∧ e.isEnd = true)

theorem Spends.drainEnds (h : Spends total s) : DrainEnds total s := by
  obtain ⟨got, hgot⟩ := entries_prefix_drain s none
  have hsize := (h.drain none).size_le
  rw [← Array.length_toList, ← hgot, List.length_append, Array.length_toList] at hsize
  refine ⟨got, (s.drain none).1.failure?, ?_, hsize, fun hnone => ?_⟩
  · simp only [Session.step, drainAll, ← hgot, ← Array.length_toList, List.drop_left]
  · obtain ⟨got', hgot', hlast⟩ := drain_last s rfl hnone
    rw [List.append_cancel_left (hgot.trans hgot')]
    exact hlast

/-- How a session over a source of `total` bytes makes progress. -/
structure Progresses (total : Nat) (s : Session) : Prop where
  /-- Counting iterations changes nothing of a read. -/
  counted : s.nextCounted.1 = s.next
  /-- A read starts no more iterations than it takes bytes, and one more. -/
  iterations : s.nextCounted.2 ≤ s.next.2.bytesRead - s.bytesRead + 1
  /-- What has been read stays read. -/
  onward : s.bytesRead ≤ s.next.2.bytesRead
  /-- A read that returns an entry takes a byte for it, and the header before the first one; none of
  its iterations goes without a byte. -/
  entry : ∀ e t, s.next = (.ok (some e), t) →
    s.bytesRead + (if s.phase = .fresh then Read.headerWidth else 0) < t.bytesRead ∧
      Read.headerWidth + t.entries.size ≤ t.bytesRead ∧
      s.nextCounted.2 ≤ t.bytesRead - s.bytesRead
  /-- What has been read and what is still to be read is what there is. -/
  total_le : s.bytesRead + s.remaining ≤ total
  drainEnds : DrainEnds total s

/-- **Progress.** Whatever the source and the profile are and whatever has been done before: every
read takes at least a byte for the entry that it returns, with nine more for the header; it goes
round its loops no more often than it takes bytes, and once more, whatever the counts declared in
the snapshot; and draining ends after no more entries than the source has bytes behind the
header. -/
theorem progresses_run (p : Profile) (source : Source) (ops : List Step) :
    Progresses source.remaining ((start p source).run ops) := by
  have hspends := spends_run p source ops
  generalize (start p source).run ops = s at hspends
  have hpaid := next_paid s
  have honward := bytesRead_le_next s
  refine ⟨hpaid.same, ?_, honward, fun e t he => ⟨lt_bytesRead_of_next he, ?_, ?_⟩,
    hspends.total_le, hspends.drainEnds⟩
  · have := hpaid.iterations
    omega
  · have hnext := hspends.next
    rw [he] at hnext
    refine hnext.opened fun hv => ?_
    have hentries := entries_next s
    rw [he] at hentries
    have hsize := congrArg List.length hentries
    simp [delivered, hnext.unopened hv] at hsize
  · have hentry := hpaid.ofEntry e (by rw [he])
    rw [he] at hentry
    exact Nat.le_sub_of_add_le hentry

end Session

end RedisDump
