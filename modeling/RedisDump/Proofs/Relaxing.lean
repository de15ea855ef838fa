import RedisDump.Proofs.Buffering
import RedisDump.Proofs.Lifecycle
import RedisDump.Proofs.Wire.Excess

/-!
# Relaxed limits

A profile is relaxed by one that accepts more versions, longer strings and larger collections and
otherwise agrees with it. A reader is relaxed by another one that answers as it does wherever it
meets no limit (`RelaxedBy`). Readers made in the same way of relaxed parts are relaxed
(`RelaxedBy.bind`, `RelaxedBy.collect`), and the parts that look at a limit are relaxed with it
(`RelaxedBy.guard`); so the reader of entries under a profile is relaxed by the one under a relaxed
profile.

A session is therefore answered the same under a relaxed profile for as long as it meets no limit.
The step that meets one returns no more than the same step does under the relaxed profile, and
ends the session (`Session.transcript_relaxedBy`).
-/

namespace RedisDump

/-- A profile that accepts more versions, longer strings and larger collections, and otherwise
agrees. -/
structure Profile.RelaxedBy (p q : Profile) : Prop where
  strict : q.strict = p.strict
  cutoff? : q.cutoff? = p.cutoff?
  minVersion : q.minVersion ≤ p.minVersion
  maxVersion : p.maxVersion ≤ q.maxVersion
  elementLimit : p.elementLimit ≤ q.elementLimit
  textLimit : p.textLimit ≤ q.textLimit

/-- A profile that is relaxed by another one, and whose limits can be written out, so that what is
above them is refused. -/
structure Profile.EasedBy (p q : Profile) : Prop extends p.RelaxedBy q where
  limits : p.WritableLimits

/-- Whether an error tells of a limit: it refuses a declared size above its greatest one, or a
version out of the accepted range. -/
def ReadError.isLimit : ReadError → Bool
  | .tooLarge e => e.isFault
  | .format (.unknownVersion _) => true
  | _ => false

theorem ReadError.isFault_of_isLimit {e : ReadError} (h : e.isLimit = true) : e.isFault = true := by
  cases e with
  | tooLarge => exact h
  | format => rfl
  | payload | truncated | unsupported | source | negativeRequest => cases h

/-! ### Readers -/

section Readers

variable {σ α β : Type}

/-- What a run under limits may turn into when they are relaxed: nothing else, unless it has met
one. -/
inductive Relaxed :
    EStateM.Result ReadError σ α → EStateM.Result ReadError σ α → Prop where
  | same (r : EStateM.Result ReadError σ α) : Relaxed r r
  | limit {e : ReadError} {s : σ} {r : EStateM.Result ReadError σ α} :
    e.isLimit = true → Relaxed (.error e s) r

/-- The second reader answers as the first one does, wherever that meets no limit. -/
def RelaxedBy (r r' : EStateM ReadError σ α) : Prop :=
  ∀ s, Relaxed (r s) (r' s)

namespace RelaxedBy

theorem refl (r : EStateM ReadError σ α) : RelaxedBy r r :=
  fun s => .same (r s)

theorem bind {r r' : EStateM ReadError σ α} {f f' : α → EStateM ReadError σ β}
    (hr : RelaxedBy r r') (hf : ∀ a, RelaxedBy (f a) (f' a)) :
    RelaxedBy (r >>= f) (r' >>= f') := by
  intro s
  have hs := hr s
  change Relaxed (EStateM.bind r f s) (EStateM.bind r' f' s)
  unfold EStateM.bind
  generalize r s = x, r' s = y at hs
  cases hs with
  | limit he => exact .limit he
  | same =>
    cases x with
    | ok a s' => exact hf a s'
    | error e s' => exact .same _

theorem collectInto {item item' : Nat → EStateM ReadError σ α}
    (h : ∀ n, RelaxedBy (item n) (item' n)) (n : Nat) (done : List α) :
    RelaxedBy (collectInto item n done) (collectInto item' n done) := by
  induction n generalizing done with
  | zero => exact refl _
  | succ n ih =>
    rw [collectInto_succ, collectInto_succ]
    exact (h (n + 1)).bind fun a => ih (a :: done)

theorem collect {item item' : Nat → EStateM ReadError σ α}
    (h : ∀ n, RelaxedBy (item n) (item' n)) (n : Nat) :
    RelaxedBy (collect item n) (collect item' n) :=
  collectInto h n []

/-- A check against a limit is relaxed by one that refuses less. -/
theorem guard {c c' : Prop} [Decidable c] [Decidable c'] {e e' : ReadError}
    (he : e.isLimit = true) (h : c' → c) (r : EStateM ReadError σ α) :
    RelaxedBy (if c then throw e else r) (if c' then throw e' else r) := by
  by_cases hc : c
  · intro s
    rw [if_pos hc]
    exact .limit he
  · have hc' : ¬ c' := fun h' => hc (h h')
    rw [if_neg hc, if_neg hc']
    exact refl r

end RelaxedBy

end Readers

namespace Read

variable {p q : Profile} {limit limit' : Int}

section

variable (hw : Text.Writable limit) (h : limit ≤ limit')

include hw h

theorem checkTextLength_relaxedBy (length : Nat) :
    RelaxedBy (checkTextLength limit length) (checkTextLength limit' length) := by
  have hlimit : (ReadError.tooLarge (.ofText limit length)).isLimit = true := by
    rw [SizeError.ofText_of_writable hw]
    rfl
  exact .guard hlimit (fun hlong => by omega) _

theorem rawText_relaxedBy (length : Nat) :
    RelaxedBy (rawText limit length) (rawText limit' length) :=
  (checkTextLength_relaxedBy hw h length).bind fun _ => .refl _

theorem compressedText_relaxedBy : RelaxedBy (compressedText limit) (compressedText limit') := by
  refine .bind (.refl _) fun packed => .bind (.refl _) fun size => ?_
  exact (checkTextLength_relaxedBy hw h size).bind fun _ =>
    (rawText_relaxedBy hw h packed).bind fun _ => .refl _

theorem specialText_relaxedBy (form : Nat) :
    RelaxedBy (specialText limit form) (specialText limit' form) := by
  unfold specialText
  split
  · exact .refl _
  · exact .refl _
  · exact .refl _
  · exact compressedText_relaxedBy hw h
  · exact .refl _

theorem text_relaxedBy : RelaxedBy (text limit) (text limit') := by
  rw [text_eq, text_eq]
  refine .bind (.refl _) fun b => ?_
  split
  · exact specialText_relaxedBy hw h _
  · exact .bind (.refl _) fun _ => rawText_relaxedBy hw h _

theorem count_relaxedBy (collection : Collection) :
    RelaxedBy (count collection limit) (count collection limit') := by
  refine .bind (.refl _) fun n => ?_
  have hlimit : (ReadError.tooLarge (.ofElements collection limit n)).isLimit = true := by
    rw [SizeError.ofElements_of_writable hw]
    rfl
  exact .guard hlimit (fun hmany => by omega) _

end

theorem limitedText_relaxedBy (h : p.EasedBy q) :
    RelaxedBy (text p.textLimit) (text q.textLimit) :=
  text_relaxedBy h.limits.texts h.textLimit

theorem texts_relaxedBy (h : p.EasedBy q) (collection : Collection) :
    RelaxedBy (texts p collection) (texts q collection) :=
  (count_relaxedBy h.limits.elements h.elementLimit collection).bind fun n =>
    .collect (fun _ => limitedText_relaxedBy h) n

/-- The limit of pairs, half that of elements, is relaxed with it. -/
theorem pairLimit_le (h : p.EasedBy q) : p.pairLimit ≤ q.pairLimit := by
  have hle := h.elementLimit
  unfold Profile.pairLimit
  rw [Int.fdiv_eq_ediv_of_nonneg _ (by decide), Int.fdiv_eq_ediv_of_nonneg _ (by decide)]
  omega

theorem pairs_relaxedBy (h : p.EasedBy q) (collection : Collection) {second second' : Read Bytes}
    (hs : RelaxedBy second second') :
    RelaxedBy (pairs p collection second) (pairs q collection second') := by
  have hpair : RelaxedBy (pair p second) (pair q second') :=
    (limitedText_relaxedBy h).bind fun _ => hs.bind fun _ => .refl _
  exact (count_relaxedBy h.limits.pairs (pairLimit_le h) collection).bind fun n =>
    (RelaxedBy.collect (fun _ => hpair) n).bind fun _ => .refl _

theorem nodes_relaxedBy (h : p.EasedBy q) : RelaxedBy (nodes p) (nodes q) := by
  have hnode : RelaxedBy (node p) (node q) :=
    .bind (.refl _) fun _ => (limitedText_relaxedBy h).bind fun _ => .refl _
  exact (count_relaxedBy h.limits.elements h.elementLimit .quicklists).bind fun n =>
    .collect (fun _ => hnode) n

theorem container_relaxedBy (h : p.EasedBy q) (pack : Bytes → Packed) :
    RelaxedBy (container p pack) (container q pack) :=
  (limitedText_relaxedBy h).bind fun _ => .refl _

theorem value_relaxedBy (h : p.EasedBy q) (cutoff : Int) (kind : ValueKind) :
    RelaxedBy (value p cutoff kind) (value q cutoff kind) := by
  cases kind with
  | string => exact (limitedText_relaxedBy h).bind fun _ => .refl _
  | list => exact (texts_relaxedBy h .lists).bind fun _ => .refl _
  | set => exact (texts_relaxedBy h .sets).bind fun _ => .refl _
  | sortedSet => exact (pairs_relaxedBy h .sortedSets (.refl _)).bind fun _ => .refl _
  | sortedSet2 => exact (pairs_relaxedBy h .sortedSets (.refl _)).bind fun _ => .refl _
  | hash =>
    exact (pairs_relaxedBy h .hashes (limitedText_relaxedBy h)).bind fun _ => .refl _
  | listQuicklist => exact (texts_relaxedBy h .quicklists).bind fun _ => .refl _
  | listQuicklist2 => exact (nodes_relaxedBy h).bind fun _ => .refl _
  | hashZipmap | listZiplist | setIntset | sortedSetZiplist | hashZiplist | setListpack
  | hashListpack | sortedSetListpack => exact container_relaxedBy h _

theorem header_relaxedBy (h : p.EasedBy q) : RelaxedBy (header p) (header q) := by
  refine .bind (.refl _) fun _ => .bind (.refl _) fun version => ?_
  have hmin := h.minVersion
  have hmax := h.maxVersion
  rw [← ite_not, ← ite_not (q.minVersion ≤ version ∧ version ≤ q.maxVersion)]
  exact .guard rfl (fun hout => by omega) _

end Read

namespace ReadRecord

variable {p q : Profile} {α : Type}

theorem fromInput_relaxedBy {r r' : Read α} (h : RelaxedBy r r') :
    RelaxedBy (fromInput r) (fromInput r') := by
  intro s
  have hs := h s.input
  unfold fromInput
  generalize r s.input = x, r' s.input = y at hs
  cases hs with
  | same => exact .same _
  | limit he => exact .limit he

theorem gate_eq (h : p.EasedBy q) (version : Nat) (part : VersionedPart) :
    gate q version part = gate p version part := by
  have hr : q.refuses part version = p.refuses part version := by
    simp only [Profile.refuses, h.strict]
  unfold gate
  rw [hr]

theorem opcodeBody_relaxedBy (h : p.EasedBy q) (version : Nat) (op : Opcode) :
    RelaxedBy (opcodeBody p version op) (opcodeBody q version op) := by
  cases op with
  | aux =>
    have haux : RelaxedBy (aux p) (aux q) :=
      (Read.limitedText_relaxedBy h).bind fun _ =>
        (Read.limitedText_relaxedBy h).bind fun _ => .refl _
    refine .bind (.refl _) fun s => ?_
    split
    · exact (fromInput_relaxedBy haux).bind fun _ => .refl _
    · exact .refl _
  | _ => exact .refl _

theorem keyValue_relaxedBy (h : p.EasedBy q) (version : Nat) (kind : ValueKind) :
    RelaxedBy (keyValue p version kind) (keyValue q version kind) := by
  have hcutoff : q.cutoffFor version = p.cutoffFor version := by
    simp only [Profile.cutoffFor, h.cutoff?]
  unfold keyValue
  rw [hcutoff]
  exact (fromInput_relaxedBy (Read.limitedText_relaxedBy h)).bind fun _ =>
    (fromInput_relaxedBy (Read.value_relaxedBy h _ kind)).bind fun _ => .refl _

theorem keyRecord_relaxedBy (h : p.EasedBy q) (version : Nat) (b : UInt8) :
    RelaxedBy (keyRecord p version b) (keyRecord q version b) := by
  unfold keyRecord
  split
  · exact .refl _
  · exact .refl _
  · rw [gate_eq h]
    exact .bind (.refl _) fun _ => keyValue_relaxedBy h version _

theorem record_relaxedBy (h : p.EasedBy q) (version : Nat) :
    RelaxedBy (record p version) (record q version) := by
  refine .bind (.refl _) fun b => ?_
  split
  · rw [gate_eq h]
    exact .bind (.refl _) fun _ => opcodeBody_relaxedBy h version _
  · exact (keyRecord_relaxedBy h version b).bind fun _ => .refl _

/-- **The reader of entries is relaxed with its profile.** -/
theorem entry_relaxedBy (h : p.EasedBy q) (version : Nat) :
    RelaxedBy (entry p version) (entry q version) := by
  intro s
  have hs := record_relaxedBy h version s
  generalize hq : record q version s = y at hs
  fun_induction entry p version s generalizing y with
  | case1 s e s' hp =>
    rw [hp] at hs
    cases hs with
    | same => rw [entry_of_error hq]; exact .same _
    | limit he => exact .limit he
  | case2 s e s' hp =>
    rw [hp] at hs
    cases hs
    rw [entry_of_some hq]
    exact .same _
  | case3 s s' hp ih =>
    rw [hp] at hs
    cases hs
    rw [entry_of_none hq]
    exact ih _ rfl (record_relaxedBy h version s')

end ReadRecord

namespace Session

variable {s : Session} {q : Profile}

/-! ### One read -/

/-- The outcome of a read under limits beside the one under the relaxed profile `q`: the same, with
sessions that differ in the profile alone, unless the first read has met a limit. -/
inductive Eased (q : Profile) {α : Type} :
    Except Error α × Session → Except Error α × Session → Prop where
  | same (answer : Except Error α) (s : Session) :
    Eased q (answer, s) (answer, s.withProfile q)
  | limit {e : ReadError} {s : Session} {r : Except Error α × Session} :
    e.isLimit = true → Eased q (.error (.reading e), s) r

theorem openSnapshot_eased (h : s.profile.EasedBy q) :
    Eased q s.openSnapshot (s.withProfile q).openSnapshot := by
  have hr := ReadRecord.fromInput_relaxedBy (Read.header_relaxedBy h) s.intake
  cases hp : ReadRecord.fromInput (Read.header s.profile) s.intake with
  | ok version intake =>
    rw [hp] at hr
    generalize hq : ReadRecord.fromInput (Read.header q) s.intake = y at hr
    cases hr
    rw [openSnapshot_of_ok hp, openSnapshot_of_ok (s := s.withProfile q) hq]
    exact .same _ _
  | error e intake =>
    rw [hp] at hr
    generalize hq : ReadRecord.fromInput (Read.header q) s.intake = y at hr
    rw [openSnapshot_of_error hp]
    cases hr with
    | same =>
      rw [openSnapshot_of_error (s := s.withProfile q) hq]
      have hfail := fail_withProfile { s with intake := intake } q e
      exact hfail ▸ .same _ _
    | limit he => exact .limit he

theorem readEntry_eased (h : s.profile.EasedBy q) (version : Nat) :
    Eased q (s.readEntry version) ((s.withProfile q).readEntry version) := by
  have hr := ReadRecord.entry_relaxedBy h version s.intake
  cases hp : ReadRecord.entry s.profile version s.intake with
  | ok e intake =>
    rw [hp] at hr
    generalize hq : ReadRecord.entry q version s.intake = y at hr
    cases hr
    rw [readEntry_of_ok hp, readEntry_of_ok (s := s.withProfile q) hq]
    cases e <;> exact .same _ _
  | error e intake =>
    rw [hp] at hr
    generalize hq : ReadRecord.entry q version s.intake = y at hr
    rw [readEntry_of_error hp]
    cases hr with
    | same =>
      rw [readEntry_of_error (s := s.withProfile q) hq]
      have hfail := fail_withProfile { s with intake := intake } q e
      exact hfail ▸ .same _ _
    | limit he => exact .limit he

/-- **One read under relaxed limits.** -/
theorem next_eased (h : s.profile.EasedBy q) : Eased q s.next (s.withProfile q).next := by
  have hphase : (s.withProfile q).phase = s.phase := rfl
  cases hp : s.phase with
  | closed version? =>
    simp only [next, hphase, hp]
    exact .same _ _
  | failed version? =>
    simp only [next, hphase, hp]
    exact .same _ _
  | exhausted version =>
    simp only [next, hphase, hp]
    exact .same _ _
  | ready version =>
    rw [next_of_ready hp, next_of_ready (s := s.withProfile q) hp]
    exact readEntry_eased h version
  | fresh =>
    have ho := openSnapshot_eased h
    have hprofile := profile_openSnapshot s
    generalize hs : s.openSnapshot = x at ho hprofile
    generalize hq : (s.withProfile q).openSnapshot = y at ho
    cases ho with
    | same answer t =>
      cases answer with
      | ok version =>
        rw [next_of_fresh hp hs, next_of_fresh (s := s.withProfile q) hp hq]
        exact readEntry_eased (hprofile ▸ h) version
      | error e =>
        rw [next_of_fresh_error hp hs, next_of_fresh_error (s := s.withProfile q) hp hq]
        exact .same _ _
    | limit he =>
      rw [next_of_fresh_error hp hs]
      exact .limit he

/-! ### A run of reads -/

/-- The outcome of a run of reads under limits beside the one under the relaxed profile `q`: when
the first run ends at a limit, the second one delivers at least as much. -/
inductive EasedRun (q : Profile) : Ending × Session → Ending × Session → Prop where
  | same (ending : Ending) (s : Session) : EasedRun q (ending, s) (ending, s.withProfile q)
  | limit {e : ReadError} {s : Session} {r : Ending × Session} :
    e.isLimit = true → s.entries.toList <+: r.2.entries.toList →
      EasedRun q (.failed (.reading e), s) r

/-- **A run of reads under relaxed limits.** -/
theorem drain_eased (h : s.profile.EasedBy q) (limit : Option Nat) :
    EasedRun q (s.drain limit) ((s.withProfile q).drain limit) := by
  fun_induction drain s limit with
  | case1 s =>
    rw [drain_zero]
    exact .same _ _
  | case2 s limit hl e s' hs ih =>
    have hn := next_eased h
    have hprofile := profile_next s
    generalize hq : (s.withProfile q).next = y at hn
    rw [hs] at hn hprofile
    cases hn
    rw [drain_of_some hl hq]
    exact ih (hprofile ▸ h)
  | case3 s limit hl s' hs =>
    have hn := next_eased h
    generalize hq : (s.withProfile q).next = y at hn
    rw [hs] at hn
    cases hn
    rw [drain_of_none hl hq]
    exact .same _ _
  | case4 s limit hl e s' hs =>
    have hn := next_eased h
    have hentries := entries_next s
    generalize hq : (s.withProfile q).next = y at hn
    rw [hs] at hn hentries
    cases hn with
    | same =>
      rw [drain_of_error hl hq]
      exact .same _ _
    | limit he =>
      refine .limit he ?_
      rw [hentries, delivered, List.append_nil]
      exact entries_prefix_drain (s.withProfile q) limit

/-! ### Steps -/

/-- Whether a step that is answered so has met a limit. -/
def MeetsLimit (answer : Except StepError Answer) : Prop :=
  ∃ e, failureOf answer = some (.reading e) ∧ e.isLimit = true

/-- The outcome of a step under limits beside the one under the relaxed profile `q`: when the first
step has met a limit, the second one returns at least as much. -/
inductive EasedStep (q : Profile) :
    Except StepError Answer × Session → Except StepError Answer × Session → Prop where
  | same (answer : Except StepError Answer) (s : Session) :
    EasedStep q (answer, s) (answer, s.withProfile q)
  | limit {r r' : Except StepError Answer × Session} :
    MeetsLimit r.1 → returned r.1 <+: returned r'.1 → EasedStep q r r'

/-- **A step under relaxed limits.** -/
theorem step_eased (h : s.profile.EasedBy q) (op : Step) :
    EasedStep q (s.step op) ((s.withProfile q).step op) := by
  cases op with
  | next =>
    have hn := next_eased h
    simp only [step]
    generalize s.next = x, (s.withProfile q).next = y at hn
    cases hn with
    | same => exact .same _ _
    | limit he => exact .limit ⟨_, rfl, he⟩ List.nil_prefix
  | demand =>
    have hn := next_eased h
    simp only [step, demand]
    generalize s.next = x, (s.withProfile q).next = y at hn
    cases hn with
    | same answer t => rcases answer with e | _ | e <;> exact .same _ _
    | limit he => exact .limit ⟨_, rfl, he⟩ List.nil_prefix
  | drain =>
    have hd := drain_eased h none
    have hreturned := returned_drain s
    have hreturned' := returned_drain (s.withProfile q)
    generalize hs : s.drain none = x at hd hreturned
    generalize hq : (s.withProfile q).drain none = y at hd hreturned'
    cases hd with
    | same ending t =>
      simp only [step, drainAll, hs, hq]
      exact .same _ _
    | limit he hentries =>
      refine .limit ⟨_, ?_, he⟩ ?_
      · simp only [step, drainAll, hs]
        rfl
      · rw [← hreturned, ← hreturned'] at hentries
        exact (List.prefix_append_right_inj _).mp hentries
  | close =>
    simp only [step, close_withProfile]
    exact .same _ _
  | allValues => exact .same _ _
  | metrics => exact .same _ _
  | log => exact .same _ _
  | closeCalls => exact .same _ _
  | ask q => exact .same _ _

/-- A step that meets a limit ends the session. -/
theorem isOver_of_meetsLimit {op : Step} (h : MeetsLimit (s.step op).1) :
    (s.step op).2.phase.isOver = true := by
  obtain ⟨e, hf, he⟩ := h
  have hfault := ReadError.isFault_of_isLimit he
  exact Phase.isOver_of_isFailed ((step_lives s op).fails.mp ⟨e, hf, hfault⟩).2

/-! ### Runs -/

/-- **A sequence of steps under relaxed limits.** Where no step meets a limit, nothing is seen of
them; in any case no more is returned than under the relaxed ones. -/
theorem transcript_eased (h : s.profile.EasedBy q) (ops : List Step) :
    ((∀ r ∈ s.transcript ops, ¬ MeetsLimit r.answer) →
        (s.withProfile q).transcript ops = s.transcript ops) ∧
      s.allReturned ops <+: (s.withProfile q).allReturned ops := by
  induction ops generalizing s with
  | nil => exact ⟨fun _ => rfl, List.prefix_rfl⟩
  | cons op ops ih =>
    have hstep := step_eased h op
    have hprofile := profile_step s op
    have hover := @isOver_of_meetsLimit s op
    simp only [transcript, allReturned_cons, List.forall_mem_cons]
    generalize s.step op = x, (s.withProfile q).step op = y at hstep hprofile hover
    cases hstep with
    | same answer t =>
      obtain ⟨htranscript, hprefix⟩ := ih (s := t) (hprofile ▸ h)
      refine ⟨fun hnone => ?_, (List.prefix_append_right_inj _).mpr hprefix⟩
      rw [htranscript hnone.2]
      rfl
    | limit hmeets hreturned =>
      have hrest := (countP_isEnd_allReturned x.2 ops).2 (hover hmeets)
      refine ⟨fun hnone => absurd hmeets hnone.1, ?_⟩
      rw [hrest, List.append_nil]
      exact hreturned.trans (List.prefix_append _ _)

/-- **Relaxed limits change no accepted result.** Over two sources that deliver the same bytes, a
session and one under a relaxed profile: as long as the first one meets no limit, they answer the
same at every step; and whatever is done with them, the entries that the first one returns, all of
them before it meets a limit, are the first ones that the second one returns. -/
theorem transcript_relaxedBy {p q : Profile} (h : p.RelaxedBy q) (hlimits : p.WritableLimits)
    {data : Bytes} {a b : Source} (ha : a.Delivers data p.bufferSize)
    (hb : b.Delivers data q.bufferSize) (ops : List Step) :
    ((∀ r ∈ (start p a).transcript ops, ¬ MeetsLimit r.answer) →
        (start q b).transcript ops = (start p a).transcript ops) ∧
      (start p a).allReturned ops <+: (start q b).allReturned ops := by
  let r : Profile := q.withBufferSize p.bufferSize p.bufferSize_pos
  have hlike : r.ReadsLike q := ⟨rfl, fun _ => rfl⟩
  have hsame : (start r a).transcript ops = (start q b).transcript ops :=
    transcript_twins (twins_start buffering_sound hlike
      ⟨data, 0, ha.holds p.bufferSize_pos, hb.holds q.bufferSize_pos⟩) ops
  have hrelaxed : (start p a).profile.EasedBy r := { h with limits := hlimits }
  have heased := transcript_eased hrelaxed ops
  have hstart : (start p a).withProfile r = start r a := rfl
  rw [hstart] at heased
  simp only [allReturned, hsame] at heased ⊢
  exact heased

/-- A profile for strings of one byte at most. -/
def oneByteTexts : Profile :=
  { Profile.standard with textLimit := 1 }

/-- A snapshot of version 11 that ends behind an information field of one byte and one byte. -/
def auxSnapshot : Bytes :=
  [0x52, 0x45, 0x44, 0x49, 0x53, 0x30, 0x30, 0x31, 0x31, 0xFA, 0x01, 0x61, 0x01, 0x62]

/-- The field is within the limit, and is read in the same way without it. -/
theorem transcript_relaxedBy_auxSnapshot :
    oneByteTexts.RelaxedBy .standard ∧ oneByteTexts.WritableLimits ∧
      (start .standard (.ofBytes auxSnapshot)).transcript [.next] =
        (start oneByteTexts (.ofBytes auxSnapshot)).transcript [.next] := by
  have hrelaxed : oneByteTexts.RelaxedBy .standard := by
    constructor <;> decide
  have hheader : ReadRecord.fromInput (Read.header oneByteTexts)
      (start oneByteTexts (.ofBytes auxSnapshot)).intake =
        .ok 11 (.behind .standard auxSnapshot 9) := rfl
  have hrecord : ReadRecord.record oneByteTexts 11 (.behind .standard auxSnapshot 9) =
      .ok (some (.aux [0x61] [0x62])) (.behind .standard auxSnapshot 14) := rfl
  have hnext := next_of_header_record (s := start oneByteTexts (.ofBytes auxSnapshot)) rfl hheader
    hrecord
  have hlimits : oneByteTexts.WritableLimits := by decide
  refine ⟨hrelaxed, hlimits, (transcript_relaxedBy hrelaxed hlimits (.contents (by decide))
    (.contents (by decide)) [.next]).1 fun r hr => ?_⟩
  simp only [transcript, step, hnext, List.mem_singleton] at hr
  subst hr
  rintro ⟨e, he, -⟩
  cases he

theorem answers_next (s : Session) :
    (s.transcript [.next]).map Report.answer = [(s.next.1.map .entry).mapError .session] :=
  rfl

/-- Where a read fails without meeting a limit, and another one ends in another way, the transcripts
differ though the first one meets no limit. -/
theorem transcript_ne_of_next {t : Session} {e : ReadError}
    {answer : Except Error (Option (Entry Packed))}
    (hs : s.next.1 = .error (.reading e)) (he : e.isLimit = false) (ht : t.next.1 = answer)
    (hne : answer ≠ .error (.reading e)) :
    (∀ r ∈ s.transcript [.next], ¬ MeetsLimit r.answer) ∧
      t.transcript [.next] ≠ s.transcript [.next] := by
  have hanswers := answers_next s
  rw [hs] at hanswers
  refine ⟨fun r hr => ?_, fun heq => ?_⟩
  · have hmem := List.mem_map_of_mem (f := Report.answer) hr
    rw [hanswers, List.mem_singleton] at hmem
    rw [hmem]
    rintro ⟨e', he', hlimit⟩
    cases he'
    rw [he] at hlimit
    cases hlimit
  · rw [← heq, answers_next, ht] at hanswers
    rcases answer with e' | a
    · cases hanswers
      exact hne rfl
    · cases hanswers

/-- Memory does not answer requests of every buffer size, however relaxed the limits are; and where
it does, a limit that cannot be written out is not met, but makes a difference. -/
theorem transcript_ne_of_relaxedBy :
    (¬ ∀ (p q : Profile) (data : Bytes) (ops : List Step), p.RelaxedBy q →
      (∀ r ∈ (start p (.ofBytes data)).transcript ops, ¬ MeetsLimit r.answer) →
        (start q (.ofBytes data)).transcript ops = (start p (.ofBytes data)).transcript ops) ∧
    ¬ ∀ (p q : Profile) (data : Bytes) (ops : List Step), p.RelaxedBy q →
      MachineWord.Fits p.bufferSize → MachineWord.Fits q.bufferSize →
        (∀ r ∈ (start p (.ofBytes data)).transcript ops, ¬ MeetsLimit r.answer) →
          (start q (.ofBytes data)).transcript ops = (start p (.ofBytes data)).transcript ops := by
  constructor
  · intro h
    let q := Profile.standard.withBufferSize Profile.tooWideSize (by decide)
    have hrelaxed : Profile.standard.RelaxedBy q :=
      ⟨rfl, rfl, Nat.le_refl _, Nat.le_refl _, Int.le_refl _, Int.le_refl _⟩
    have hheader : ReadRecord.fromInput (Read.header .standard)
        (start .standard (.ofBytes [0x52])).intake =
          .error (.truncated 1 4) (.behind .standard [0x52] 1) := rfl
    have hp := next_of_fresh_error rfl
      (openSnapshot_of_error (s := start .standard (.ofBytes [0x52])) hheader)
    have hq := next_start_of_not_fits (p := q) (by decide) [0x52]
    obtain ⟨hmeets, hne⟩ :=
      transcript_ne_of_next (congrArg Prod.fst hp) rfl (congrArg Prod.fst hq) nofun
    exact hne (h .standard q [0x52] [.next] hrelaxed hmeets)
  · intro h
    have hrelaxed : unwritableTexts.RelaxedBy .standard :=
      ⟨rfl, rfl, Nat.le_refl _, Nat.le_refl _, Int.le_refl _,
        Int.le_trans (Int.le_of_lt textLimit_unwritableTexts_neg) (by decide)⟩
    have hfits : MachineWord.Fits Profile.standard.bufferSize := by decide
    have hheader : ReadRecord.fromInput (Read.header .standard)
        (start .standard (.ofBytes emptyKeySnapshot)).intake =
          .ok 11 (.behind .standard emptyKeySnapshot 9) := rfl
    have hrecord : ReadRecord.record .standard 11 (.behind .standard emptyKeySnapshot 9) =
        .error (.truncated 11 1) (.behind .standard emptyKeySnapshot 11) := rfl
    obtain ⟨s, hp, -⟩ := next_unwritableTexts
    have hq := next_of_header_error (s := start .standard (.ofBytes emptyKeySnapshot)) rfl hheader
      hrecord
    obtain ⟨hmeets, hne⟩ :=
      transcript_ne_of_next (congrArg Prod.fst hp) rfl (congrArg Prod.fst hq) nofun
    exact hne (h unwritableTexts .standard emptyKeySnapshot [.next] hrelaxed hfits hfits hmeets)

end Session

end RedisDump
