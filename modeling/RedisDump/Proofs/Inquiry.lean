import RedisDump.Proofs.Buffering
import RedisDump.Proofs.Outcome.Elements

/-!
# Inquiries about entries

The entries that a session has delivered can be asked about at any time, and asking decodes their
elements. The reading does not notice: a session with any other entries delivered so far reads the
same (`step_abreast`), so the steps of a run that are no inquiries report what they report without
the inquiries. The answers do not depend on the time either. A row of entries only grows, and its
entries go on to resemble what they were (`Entry.Grown`), whatever is read and asked in between; a
question about the contents of an entry is answered the same in any two rows of which one has grown
from the other. Both together are `inquiries_unseen`.
-/

namespace RedisDump

/-! ### Questions that are answered the same at any time -/

/-- Whether a question is about the contents of a list, and not about whether they have been
decoded. -/
def Deferred.Step.isSteady : Deferred.Step → Bool
  | .isRealized | .describe => false
  | _ => true

namespace Deferred

theorem SameAnswer.trans {d d' d'' : Deferred Packed} (h : SameAnswer d d')
    (h' : SameAnswer d' d'') : SameAnswer d d'' :=
  ⟨h.captured.trans h'.captured, h.answer.trans h'.answer⟩

/-- What is asked of the elements is answered from the answer of decoding them. -/
theorem withElements_fst (d : Deferred Packed)
    (f : List Bytes → Except (Error PackedError) (Answer Packed))
    (failure : PackedError → Error PackedError) :
    (d.withElements f failure).1 = (d.force.1.mapError failure).bind f := by
  unfold withElements
  generalize d.force = x
  obtain ⟨answer, d'⟩ := x
  cases answer <;> rfl

/-- Two lists with the same captured value and elements answer steady questions alike. -/
theorem SameAnswer.step {d d' : Deferred Packed} (h : SameAnswer d d') {q : Step}
    (hq : q.isSteady = true) : (d.step q).1 = (d'.step q).1 := by
  have hw (f : List Bytes → Except (Error PackedError) (Answer Packed))
      (failure : PackedError → Error PackedError) :
      (d.withElements f failure).1 = (d'.withElements f failure).1 := by
    rw [withElements_fst, withElements_fst, h.answer]
  cases q with
  | isRealized => cases hq
  | describe => cases hq
  | captured => simp only [Deferred.step, h.captured]
  | hash => rfl
  | get | alterCopy | size | isNonempty | item | slice | reversed | contains | count => exact hw _ _
  | position value start stop =>
    simp only [Deferred.step]
    split
    · rfl
    · exact hw _ _
  | equals other | differs other =>
    cases other with
    | foreign => rfl
    | elements values => exact hw _ _

end Deferred

namespace Entry

/-- The positions that a question names. -/
def Step.positions : Step → List Int
  | .entry i | .values i | .list i _ | .assign i _ => [i]
  | .equals i j | .sameHash i j => [i, j]

/-- Whether a question is about the contents of entries, and not about whether their elements have
been decoded. -/
def Step.isSteady : Step → Bool
  | .entry _ => false
  | .list _ q => q.isSteady
  | .values _ | .equals .. | .sameHash .. | .assign .. => true

/-- A question about the contents of entries among the first `n`, which it counts from the
start. -/
structure Step.Steady (q : Step) (n : Nat) : Prop where
  isSteady : q.isSteady = true
  within : ∀ i ∈ q.positions, 0 ≤ i ∧ i < n

/-! ### Rows that grow -/

theorem Resembles.trans {e e' e'' : Entry Packed} (h : Resembles e e') (h' : Resembles e' e'') :
    Resembles e e'' := by
  cases h with
  | refl => exact h'
  | keyValue hv => cases h' with
    | refl => exact .keyValue hv
    | keyValue hv' => exact .keyValue (hv.trans hv')

/-- A row that starts with the entries of another one, which may have been decoded since. -/
structure Grown (old new : Array (Entry Packed)) : Prop where
  size : old.size ≤ new.size
  resembles : ∀ i (h : i < old.size) (h' : i < new.size), Resembles new[i] old[i]

namespace Grown

variable {old mid new : Array (Entry Packed)}

theorem refl (entries : Array (Entry Packed)) : Grown entries entries :=
  ⟨Nat.le_refl _, fun _ _ _ => .refl _⟩

theorem trans (h : Grown old mid) (h' : Grown mid new) : Grown old new where
  size := Nat.le_trans h.size h'.size
  resembles i hi hi' := (h'.resembles i (by have := h.size; omega) hi').trans
    (h.resembles i hi (by have := h.size; omega))

theorem of_isPrefix (h : old.toList <+: new.toList) : Grown old new where
  size := h.length_le
  resembles i hi _ := by
    have he : old.toList[i] = new.toList[i] := h.getElem hi
    simp only [Array.getElem_toList] at he
    rw [he]
    exact .refl _

end Grown

/-! ### What questions leave -/

theorem forceValues_fst_of_resembles {e e' : Entry Packed} (h : Resembles e e') :
    e.forceValues.1 = e'.forceValues.1 := by
  cases h with
  | refl => rfl
  | keyValue hv => exact congrArg some hv.answer

theorem resembles_forceValues (e : Entry Packed) : Resembles e.forceValues.2 e := by
  cases e with
  | keyValue fields values => exact .keyValue (Deferred.sameAnswer_force values)
  | eof | selectDb | resizeDb | aux => exact .refl _

/-- Whatever is asked, the entries go on to resemble what they were. -/
theorem grown_step (entries : Array (Entry Packed)) (q : Step) :
    Grown entries (step (ε := PackedError) entries q).2 := by
  have hd := decoded_step (ε := PackedError) entries q
  refine ⟨Nat.le_of_eq hd.size.symm, fun i hi hi' => ?_⟩
  rcases hd.entry i hi hi' with he | he
  · rw [he]
    exact .refl _
  · rw [he]
    exact resembles_forceValues _

/-! ### What questions are answered -/

/-- An answer that depends on the entry at a position is the same in a row that has grown. -/
theorem atPosition_fst_of_grown {old new : Array (Entry Packed)} (h : Grown old new) {i : Int}
    (hi : 0 ≤ i ∧ i < old.size)
    {go : Fin old.size → Except (Error PackedError) (Answer Packed) × Array (Entry Packed)}
    {go' : Fin new.size → Except (Error PackedError) (Answer Packed) × Array (Entry Packed)}
    (hgo : ∀ p : Fin old.size, Resembles new[p.castLE h.size] old[p] →
      (go' (p.castLE h.size)).1 = (go p).1) :
    (atPosition new i go').1 = (atPosition old i go).1 := by
  unfold atPosition
  rw [Position.place_of_le h.size hi]
  cases Position.place old.size i with
  | ok p => exact hgo p (h.resembles p p.isLt (p.castLE h.size).isLt)
  | error e => rfl

/-- What the elements of an entry are asked is answered from the entry at the place alone. -/
theorem askValues_fst (entries : Array (Entry Packed)) (p : Fin entries.size) (field : String)
    (q : Deferred.Step) :
    (askValues (ε := PackedError) entries p field q).1 =
      match entries[p].values? with
      | none => .error (.noField entries[p].type field)
      | some values => (((values.step q).1.map .values).mapError .values) := by
  unfold askValues
  cases entries[p].values? <;> rfl

theorem askValues_fst_of_resembles {old new : Array (Entry Packed)} {p : Fin old.size}
    {p' : Fin new.size} (h : Resembles new[p'] old[p]) (field : String) {q : Deferred.Step}
    (hq : q.isSteady = true) :
    (askValues (ε := PackedError) new p' field q).1 = (askValues old p field q).1 := by
  rw [askValues_fst, askValues_fst]
  generalize new[p'] = e, old[p] = e' at h
  cases h with
  | refl => rfl
  | keyValue hv =>
    simp only [values?]
    rw [hv.step hq]

theorem bare_of_resembles {e e₀ : Entry Packed} (h : Resembles e e₀) : e.bare = e₀.bare := by
  cases h with
  | refl | keyValue => rfl

theorem sameHash_of_resembles {e e₀ e' e'₀ : Entry Packed} (h : Resembles e e₀)
    (h' : Resembles e' e'₀) (hashing : Hashing) :
    e.sameHash e' hashing = e₀.sameHash e'₀ hashing := by
  unfold sameHash
  rw [bare_of_resembles h, bare_of_resembles h']

theorem compare_fst_of_resembles {e e₀ e' e'₀ : Entry Packed} (h : Resembles e e₀)
    (h' : Resembles e' e'₀) :
    (compare (ε := PackedError) e e').1 = (compare e₀ e'₀).1 := by
  cases h with
  | refl => cases h' with
    | refl => rfl
    | keyValue hv' => cases e with
      | keyValue => rw [compare_fst_keyValue, compare_fst_keyValue, hv'.answer]
      | eof | selectDb | resizeDb | aux => rfl
  | keyValue hv => cases h' with
    | refl => cases e' with
      | keyValue => rw [compare_fst_keyValue, compare_fst_keyValue, hv.answer]
      | eof | selectDb | resizeDb | aux => rfl
    | keyValue hv' => rw [compare_fst_keyValue, compare_fst_keyValue, hv.answer, hv'.answer]

/-- **A question about the contents of entries is answered the same at any time.** -/
theorem step_fst_of_grown {old new : Array (Entry Packed)} (h : Grown old new) {q : Step}
    (hq : q.Steady old.size) :
    (step (ε := PackedError) new q).1 = (step old q).1 := by
  obtain ⟨hsteady, hwithin⟩ := hq
  cases q with
  | entry i => cases hsteady
  | values i =>
    exact atPosition_fst_of_grown h (hwithin i (by simp [Step.positions]))
      fun p hp => askValues_fst_of_resembles hp _ rfl
  | list i q =>
    exact atPosition_fst_of_grown h (hwithin i (by simp [Step.positions]))
      fun p hp => askValues_fst_of_resembles hp _ hsteady
  | equals i j =>
    refine atPosition_fst_of_grown h (hwithin i (by simp [Step.positions])) fun p hp => ?_
    refine atPosition_fst_of_grown h (hwithin j (by simp [Step.positions])) fun p' hp' => ?_
    have hcompare := compare_fst_of_resembles hp hp'
    simp only [Fin.getElem_fin] at hcompare
    rw [askEquals_fst, askEquals_fst, hcompare]
    rfl
  | sameHash i j =>
    refine atPosition_fst_of_grown h (hwithin i (by simp [Step.positions])) fun p hp => ?_
    refine atPosition_fst_of_grown h (hwithin j (by simp [Step.positions])) fun p' hp' => ?_
    simp only [sameHash_of_resembles hp hp']
  | assign i field =>
    exact atPosition_fst_of_grown h (hwithin i (by simp [Step.positions])) fun _ _ => rfl

end Entry

namespace Session

/-- Whether a step only inquires about the entries delivered so far. -/
def Step.isInquiry : Step → Bool
  | .allValues | .metrics | .ask _ => true
  | .next | .demand | .drain | .close | .log | .closeCalls => false

/-- Two sessions that differ at most in the entries delivered so far. -/
def Abreast (s t : Session) : Prop :=
  ∃ entries, t = { s with entries := entries }

/-- Two outcomes with the same answer, of sessions that are abreast. -/
def AnswersAbreast {α : Type} (r r' : α × Session) : Prop :=
  r'.1 = r.1 ∧ Abreast r.2 r'.2

variable {s t : Session}

/-! ### Reading does not look at the entries delivered before -/

theorem Abreast.refl (s : Session) : Abreast s s :=
  ⟨s.entries, rfl⟩

theorem Abreast.trans {u : Session} (h : Abreast s t) (h' : Abreast t u) : Abreast s u := by
  obtain ⟨_, rfl⟩ := h
  obtain ⟨entries, rfl⟩ := h'
  exact ⟨entries, rfl⟩

theorem Abreast.fail (h : Abreast s t) (e : ReadError) : Abreast (s.fail e) (t.fail e) := by
  obtain ⟨entries, rfl⟩ := h
  unfold Session.fail
  split
  · exact ⟨entries, rfl⟩
  · exact ⟨entries, rfl⟩

theorem Abreast.close (h : Abreast s t) : Abreast s.close t.close := by
  obtain ⟨entries, rfl⟩ := h
  unfold Session.close
  split
  · exact ⟨entries, rfl⟩
  · exact ⟨entries, rfl⟩

theorem openSnapshot_abreast (h : Abreast s t) :
    AnswersAbreast s.openSnapshot t.openSnapshot := by
  obtain ⟨entries, rfl⟩ := h
  unfold openSnapshot
  dsimp only
  split
  · exact ⟨rfl, entries, rfl⟩
  · exact ⟨rfl, Abreast.fail ⟨entries, rfl⟩ _⟩

theorem readEntry_abreast (h : Abreast s t) (version : Nat) :
    AnswersAbreast (s.readEntry version) (t.readEntry version) := by
  obtain ⟨entries, rfl⟩ := h
  unfold readEntry
  dsimp only
  split
  · rename_i e _ _
    refine ⟨rfl, entries.push e, ?_⟩
    cases e <;> rfl
  · exact ⟨rfl, Abreast.fail ⟨entries, rfl⟩ _⟩

theorem next_abreast (h : Abreast s t) : AnswersAbreast s.next t.next := by
  have hphase : t.phase = s.phase := by
    obtain ⟨entries, rfl⟩ := h
    rfl
  unfold next
  rw [hphase]
  split
  · exact ⟨rfl, h⟩
  · exact ⟨rfl, h⟩
  · exact ⟨rfl, h⟩
  · exact readEntry_abreast h _
  · obtain ⟨ha, hs⟩ := openSnapshot_abreast h
    generalize s.openSnapshot = r, t.openSnapshot = r' at ha hs
    obtain ⟨answer, s'⟩ := r
    obtain ⟨answer', t'⟩ := r'
    cases ha
    cases answer with
    | ok version => exact readEntry_abreast hs version
    | error e => exact ⟨rfl, hs⟩

/-- What one session returns the other one returns too, and each delivers it behind its own
entries. -/
theorem exists_next_abreast {s' : Session} {answer : Except Error (Option (Entry Packed))}
    (h : Abreast s t) (hs : s.next = (answer, s')) :
    ∃ t', t.next = (answer, t') ∧ Abreast s' t' ∧
      s'.entries.toList = s.entries.toList ++ delivered answer ∧
      t'.entries.toList = t.entries.toList ++ delivered answer := by
  obtain ⟨ha, hst⟩ := next_abreast h
  have hes := entries_next s
  have het := entries_next t
  rw [hs] at ha hst hes
  rw [ha] at het
  exact ⟨t.next.2, Prod.ext ha rfl, hst, hes, het⟩

/-- Both drains end in the same way and deliver the same entries, each behind its own. -/
theorem drain_abreast (h : Abreast s t) (limit : Option Nat) :
    AnswersAbreast (s.drain limit) (t.drain limit) ∧
      ∃ got, (s.drain limit).2.entries.toList = s.entries.toList ++ got ∧
        (t.drain limit).2.entries.toList = t.entries.toList ++ got := by
  fun_induction drain s limit generalizing t with
  | case1 s =>
    rw [drain_zero]
    exact ⟨⟨rfl, h⟩, [], by simp, by simp⟩
  | case2 s limit hl e s' hs ih =>
    obtain ⟨t', ht, hst, hes, het⟩ := exists_next_abreast h hs
    obtain ⟨hd, got, hgs, hgt⟩ := ih hst
    rw [drain_of_some hl ht]
    refine ⟨hd, e :: got, ?_, ?_⟩
    · rw [hgs, hes, delivered, List.append_assoc, List.singleton_append]
    · rw [hgt, het, delivered, List.append_assoc, List.singleton_append]
  | case3 s limit hl s' hs =>
    obtain ⟨t', ht, hst, hes, het⟩ := exists_next_abreast h hs
    rw [drain_of_none hl ht]
    exact ⟨⟨rfl, hst⟩, [], hes, het⟩
  | case4 s limit hl e s' hs =>
    obtain ⟨t', ht, hst, hes, het⟩ := exists_next_abreast h hs
    rw [drain_of_error hl ht]
    exact ⟨⟨rfl, hst⟩, [], hes, het⟩

/-! ### Steps -/

/-- A step that is no inquiry does not look at the entries delivered before. -/
theorem step_abreast (h : Abreast s t) {op : Step} (hop : op.isInquiry = false) :
    AnswersAbreast (s.step op) (t.step op) := by
  cases op with
  | next =>
    obtain ⟨ha, hs⟩ := next_abreast h
    exact ⟨by simp only [step, ha], hs⟩
  | demand =>
    obtain ⟨ha, hs⟩ := next_abreast h
    simp only [step, demand]
    generalize s.next = r, t.next = r' at ha hs
    obtain ⟨answer, s'⟩ := r
    obtain ⟨answer', t'⟩ := r'
    cases ha
    rcases answer with e | _ | e
    · exact ⟨rfl, hs⟩
    · exact ⟨rfl, hs⟩
    · exact ⟨rfl, hs⟩
  | drain =>
    obtain ⟨⟨ha, hs⟩, got, hgs, hgt⟩ := drain_abreast h none
    refine ⟨?_, hs⟩
    simp only [step, drainAll, ha, hgs, hgt, ← Array.length_toList, List.drop_left]
  | close => exact ⟨rfl, h.close⟩
  | log =>
    obtain ⟨entries, rfl⟩ := h
    exact ⟨rfl, entries, rfl⟩
  | closeCalls =>
    obtain ⟨entries, rfl⟩ := h
    exact ⟨rfl, entries, rfl⟩
  | allValues => cases hop
  | metrics => cases hop
  | ask q => cases hop

/-- An inquiry changes nothing but the entries. -/
theorem abreast_of_isInquiry {op : Step} (hop : op.isInquiry = true) (s : Session) :
    Abreast s (s.step op).2 := by
  cases op with
  | allValues => exact ⟨_, rfl⟩
  | metrics => exact .refl s
  | ask q => exact ⟨_, rfl⟩
  | next | demand | drain | close | log | closeCalls => cases hop

/-- A step adds entries and leaves those delivered before as they are, but for decoding them. -/
theorem grown_step (s : Session) (op : Step) :
    Entry.Grown s.entries (s.step op).2.entries := by
  have hn : Entry.Grown s.entries s.next.2.entries :=
    .of_isPrefix ⟨_, (entries_next s).symm⟩
  cases op with
  | next => exact hn
  | demand =>
    simp only [step, demand_snd]
    exact hn
  | drain => exact .of_isPrefix (entries_prefix_drain s none)
  | close =>
    simp only [step, close]
    split
    · exact .refl _
    · exact .refl _
  | allValues =>
    refine ⟨by simp [step, forceAll], fun i hi hi' => ?_⟩
    simp only [step, forceAll, Array.map_map, Array.getElem_map]
    exact Entry.resembles_forceValues _
  | metrics | log | closeCalls => exact .refl _
  | ask q => exact Entry.grown_step s.entries q

theorem grown_run (s : Session) (ops : List Step) :
    Entry.Grown s.entries (s.run ops).entries := by
  induction ops generalizing s with
  | nil => exact .refl _
  | cons op ops ih => exact (grown_step s op).trans (ih _)

/-! ### Runs -/

/-- What is seen of a session after each of a sequence of steps, without the inquiries. -/
def readingTranscript (s : Session) (ops : List Step) : List Report :=
  ((ops.zip (s.transcript ops)).filter fun r => !r.1.isInquiry).map Prod.snd

theorem readingTranscript_eq (h : Abreast s t) (ops : List Step) :
    t.readingTranscript ops = s.transcript (ops.filter fun op => !op.isInquiry) := by
  induction ops generalizing s t with
  | nil => rfl
  | cons op ops ih =>
    cases hop : op.isInquiry with
    | true =>
      simpa [readingTranscript, transcript, hop] using ih (h.trans (abreast_of_isInquiry hop t))
    | false =>
      obtain ⟨ha, hs⟩ := step_abreast h hop
      have hrest := ih hs
      obtain ⟨entries, he⟩ := hs
      simpa [readingTranscript, transcript, hop, ha, he, bytesRead] using hrest

/-- What is answered when the elements of all entries are asked for. -/
theorem forceAll_prefix_of_grown (h : Entry.Grown s.entries t.entries) :
    s.forceAll.1 <+: t.forceAll.1 := by
  have hsize := h.size
  simp only [forceAll, Array.toList_map]
  rw [List.prefix_iff_getElem]
  refine ⟨by simpa using hsize, fun i hi => ?_⟩
  have hi' : i < s.entries.size := by simpa using hi
  have hr := h.resembles i hi' (by omega)
  simp only [List.getElem_map, Array.getElem_toList]
  exact (Entry.forceValues_fst_of_resembles hr).symm

/-- **Inquiries are not seen, and are answered the same at any time.** Whatever a source does, and
however inquiries are mixed among the other steps of a run: those report the answers, phases and
numbers of bytes that they report without the inquiries; and once entries have been delivered, the
questions about their contents have the answers that they have at the end of the run, whatever is
read, closed, decoded, asked and altered in between. -/
theorem inquiries_unseen (p : Profile) (source : Source) (ops : List Step) :
    (start p source).readingTranscript ops =
        (start p source).transcript (ops.filter fun op => !op.isInquiry) ∧
      ∀ before after, ops = before ++ after →
        (∀ q : Entry.Step, q.Steady ((start p source).run before).entries.size →
          (((start p source).run ops).ask q).1 = (((start p source).run before).ask q).1) ∧
        ((start p source).run before).forceAll.1 <+: ((start p source).run ops).forceAll.1 := by
  refine ⟨readingTranscript_eq (.refl _) ops, ?_⟩
  rintro before after rfl
  have hg : Entry.Grown ((start p source).run before).entries
      ((start p source).run (before ++ after)).entries := by
    rw [run_append]
    exact grown_run _ after
  refine ⟨fun q hq => ?_, forceAll_prefix_of_grown hg⟩
  simp only [ask, Entry.step_fst_of_grown hg hq]

end Session

end RedisDump
