import RedisDump.Input.Steps
import RedisDump.Proofs.Lifecycle
import RedisDump.Proofs.Wire.Passing

/-!
# Bytes received and bytes handed out

What an input has received from its source, it has either handed out or keeps ready, in order and
without a gap (`Input.Receipt`). This is shown for the single byte, from which every reader is put
together, and holds of any steps in turn (`Input.Runs`): the bytes that the steps take, one after
the other, are the first ones received and are counted, and the others are those that lie ready
(`Input.bytes_accounted`). A step that the source cuts short leaves nothing ready. Closing an input
drops what lies ready, so everything that is handed out later has been received later.

Bytes are taken from a portion all at once (`Read.portions`); this is the same as byte by byte
(`Read.bytes_eq_portions`).
-/

namespace RedisDump

/-- Requests of the given size get these answers, one after the other, and `s'` is left. -/
inductive Source.Answers (size : Int) :
    List (Except Source.Error Bytes) → Source → Source → Prop where
  | nil (s : Source) : Answers size [] s s
  | cons {answer : Except Source.Error Bytes} {answers : List (Except Source.Error Bytes)}
    {s mid s' : Source} :
    s.read size = (answer, mid) → Answers size answers mid s' → Answers size (answer :: answers) s s'

/-- The bytes of an answer; a failure has none. -/
def Source.answered : Except Source.Error Bytes → Bytes
  | .ok portion => portion
  | .error _ => []

/-- The bytes of answers, one after the other. -/
def Source.received (answers : List (Except Source.Error Bytes)) : Bytes :=
  answers.flatMap answered

namespace Source

variable {size : Int} {answers more : List (Except Source.Error Bytes)} {s s' s'' : Source}

theorem received_append : received (answers ++ more) = received answers ++ received more :=
  List.flatMap_append

theorem Answers.append (h : Answers size answers s s') (h' : Answers size more s' s'') :
    Answers size (answers ++ more) s s'' := by
  induction h with
  | nil => exact h'
  | cons hr _ ih => exact .cons hr (ih h')

theorem Answers.single {answer : Except Source.Error Bytes} (h : s.read size = (answer, s')) :
    Answers size [answer] s s' :=
  .cons h (.nil s')

theorem Answers.closeCalls (h : Answers size answers s s') : s'.closeCalls = s.closeCalls := by
  induction h with
  | nil => rfl
  | @cons _ _ s _ _ hr _ ih =>
    have hread := closeCalls_read s size
    rw [hr] at hread
    exact ih.trans hread

/-- The answers of a script are its portions in turn. -/
theorem Answers.script {portions : List (Option Bytes)} (hs : s.supply = .script portions)
    (h : Answers size answers s s') : s'.supply = .script (portions.drop answers.length) ∧
      received answers = ((portions.take answers.length).map fun p => p.getD []).flatten := by
  induction h generalizing portions with
  | nil => simp [hs, received]
  | @cons answer answers s mid s' hr _ ih =>
    cases portions with
    | nil =>
      obtain ⟨rfl, rfl⟩ : .ok [] = answer ∧ s = mid := by simpa [read, hs] using hr
      simpa [received, answered] using ih hs
    | cons p portions =>
      have hmid : mid.supply = .script portions ∧ answered answer = p.getD [] := by
        cases p <;> simp only [read, hs, Prod.mk.injEq] at hr <;> obtain ⟨rfl, rfl⟩ := hr <;>
          exact ⟨rfl, rfl⟩
      obtain ⟨hsupply, hreceived⟩ := ih hmid.1
      refine ⟨hsupply, ?_⟩
      rw [received, List.flatMap_cons, hmid.2, ← received, hreceived]
      rfl

end Source

namespace Input

open Source (received)

variable {answers more : List (Except Source.Error Bytes)} {taken taken' : Bytes} {i j k : Input}

/-! ### Receipts -/

/-- From one input to another the source has given the answers, and the bytes in `taken` have been
handed out: what lay ready and what has been received is what has been handed out and what lies
ready now. -/
structure Receipt (answers : List (Except Source.Error Bytes)) (taken : Bytes) (i j : Input) :
    Prop where
  asked : i.source.Answers i.bufferSize answers j.source
  stream : i.unread ++ received answers = taken ++ j.unread
  consumed : j.consumed = i.consumed + taken.length
  bufferSize : j.bufferSize = i.bufferSize
  closed : j.closed = i.closed

theorem Receipt.refl (i : Input) : Receipt [] [] i i :=
  ⟨.nil _, List.append_nil _, rfl, rfl, rfl⟩

theorem Receipt.trans (h : Receipt answers taken i j) (h' : Receipt more taken' j k) :
    Receipt (answers ++ more) (taken ++ taken') i k where
  asked := h.asked.append (h.bufferSize ▸ h'.asked)
  stream := by
    rw [Source.received_append, ← List.append_assoc, h.stream, List.append_assoc, h'.stream,
      List.append_assoc]
  consumed := by rw [h'.consumed, h.consumed, List.length_append, Nat.add_assoc]
  bufferSize := h'.bufferSize.trans h.bufferSize
  closed := h'.closed.trans h.closed

/-- A byte is taken from those that lie ready, or is the first one of a new portion. -/
theorem Receipt.of_next {needed : Nat} {b : UInt8} (h : Read.next needed i = .ok b j) :
    ∃ answers, Receipt answers [b] i j := by
  unfold Read.next at h
  split at h
  · rename_i hu
    cases h
    exact ⟨[], .nil _, by rw [hu]; exact List.append_nil _, rfl, rfl, rfl⟩
  · rename_i hu
    split at h
    · cases h
    · cases h
    · rename_i rest source hs
      cases h
      exact ⟨[.ok (b :: rest)], .single hs, by rw [hu]; simp [received, Source.answered], rfl, rfl,
        rfl⟩

/-- With nothing ready and no portion to come nothing is handed out. -/
theorem Receipt.of_next_error {needed : Nat} {e : ReadError} (h : Read.next needed i = .error e j) :
    ∃ answers, Receipt answers [] i j ∧ j.unread = [] ∧ e.isVerdict = false := by
  unfold Read.next at h
  split at h
  · cases h
  · rename_i hu
    split at h
    · rename_i e' source hs
      cases h
      exact ⟨[.error e'], ⟨.single hs, by rw [hu]; rfl, rfl, rfl, rfl⟩, hu, rfl⟩
    · rename_i source hs
      cases h
      exact ⟨[.ok []], ⟨.single hs, by rw [hu]; rfl, rfl, rfl, rfl⟩, hu, rfl⟩
    · cases h

theorem Gives.receipt (h : Gives taken i j) : ∃ answers, Receipt answers taken i j := by
  induction h with
  | nil i => exact ⟨[], .refl i⟩
  | cons hb _ ih =>
    obtain ⟨answers, hfirst⟩ := Receipt.of_next hb
    obtain ⟨more, hrest⟩ := ih
    exact ⟨answers ++ more, hfirst.trans hrest⟩

end Input

open Input (Gives)

/-! ### Readers -/

/-- A reader that succeeds has taken bytes, and returns the same wherever it is given them. -/
theorem Bytewise.exists_gives {α : Type} {r : Read α} (h : Bytewise r) {i j : Input} {a : α}
    (hr : r i = .ok a j) :
    ∃ bs, Gives bs i j ∧ ∀ i' j', Gives bs i' j' → r i' = .ok a j' := by
  induction h generalizing i j with
  | pure a =>
    cases hr
    refine ⟨[], .nil i, fun i' j' hg => ?_⟩
    rw [Input.gives_nil_iff.mp hg]
    rfl
  | throw _ => cases hr
  | next needed =>
    obtain ⟨bs, rfl, hg⟩ := (Read.next_recognises needed i a j).mp hr
    exact ⟨[a], hg, fun i' j' hg' => (Read.next_recognises needed i' a j').mpr ⟨[a], rfl, hg'⟩⟩
  | bind _ _ ihr ihf =>
    obtain ⟨a₁, mid, h₁, h₂⟩ := bind_eq_ok hr
    obtain ⟨bs, hg, hsame⟩ := ihr h₁
    obtain ⟨cs, hg', hsame'⟩ := ihf a₁ h₂
    refine ⟨bs ++ cs, Input.gives_append_iff.mpr ⟨mid, hg, hg'⟩, fun i' j' happ => ?_⟩
    obtain ⟨mid', hm, hm'⟩ := Input.gives_append_iff.mp happ
    rw [bind_of_ok (hsame i' mid' hm)]
    exact hsame' mid' j' hm'

/-- A reader that fails has taken bytes, and then refused them or found that there are no more. -/
theorem Bytewise.exists_gives_of_error {α : Type} {r : Read α} (h : Bytewise r) {i j : Input}
    {e : ReadError} (hr : r i = .error e j) :
    ∃ bs mid, Gives bs i mid ∧
      (e.isVerdict = true ∧ mid = j ∨ ∃ needed, Read.next needed mid = .error e j) := by
  induction h generalizing i j with
  | pure _ => cases hr
  | throw hverdict =>
    cases hr
    exact ⟨[], i, .nil i, .inl ⟨hverdict, rfl⟩⟩
  | next needed => exact ⟨[], i, .nil i, .inr ⟨needed, hr⟩⟩
  | @bind _ _ r f hbr _ ihr ihf =>
    cases h₁ : r i with
    | error e' mid =>
      rw [bind_of_error h₁] at hr
      cases hr
      exact ihr h₁
    | ok a mid =>
      rw [bind_of_ok h₁] at hr
      obtain ⟨bs, hg, -⟩ := hbr.exists_gives h₁
      obtain ⟨cs, mid', hg', hstop⟩ := ihf a hr
      exact ⟨bs ++ cs, mid', Input.gives_append_iff.mpr ⟨mid, hg, hg'⟩, hstop⟩

/-! ### Whole portions -/

namespace Read

/-- The next `n` bytes behind those in `done`, taken from a portion all at once. What lies ready is
handed out first; only when it is not enough the source is asked, for as long as it takes. -/
def portions (n : Nat) (done : Bytes) (i : Input) : EStateM.Result ReadError Input Bytes :=
  if n ≤ i.unread.length then
    .ok (done ++ i.unread.take n)
      { i with unread := i.unread.drop n, consumed := i.consumed + n }
  else
    let needed := n - i.unread.length
    let emptied := { i with unread := [], consumed := i.consumed + i.unread.length }
    match i.source.read i.bufferSize with
    | (.error e, source) => .error (.source e) { emptied with source := source }
    | (.ok [], source) =>
      .error (.truncated emptied.consumed needed) { emptied with source := source }
    | (.ok (b :: rest), source) =>
      portions needed (done ++ i.unread) { emptied with source := source, unread := b :: rest }
-- a portion is drawn when nothing is left ready, and the next one only when that is used up
termination_by 2 * n + (if i.unread = [] then 1 else 0)
decreasing_by
  cases hu : i.unread with
  | nil => simp_all
  | cons c cs =>
    simp only [hu, List.length_cons] at *
    simp only [reduceCtorEq, if_false]
    omega

/-- What lies ready is handed out without asking the source. -/
theorem collectInto_next_ready (front : Bytes) (n : Nat) (done rest : Bytes) (i : Input) :
    collectInto next (front.length + n) done { i with unread := front ++ rest } =
      collectInto next n (front.reverse ++ done)
        { i with unread := rest, consumed := i.consumed + front.length } := by
  induction front generalizing done i with
  | nil => simp
  | cons b front ih =>
    have hlen : (b :: front).length + n = (front.length + n) + 1 := by
      rw [List.length_cons]
      omega
    have hfirst : next ((front.length + n) + 1) { i with unread := b :: front ++ rest } =
        .ok b { i with unread := front ++ rest, consumed := i.consumed + 1 } := rfl
    have htail := ih (b :: done) { i with consumed := i.consumed + 1 }
    rw [hlen, collectInto_succ, bind_of_ok hfirst, htail, List.reverse_cons, List.append_assoc,
      List.singleton_append, List.length_cons, Nat.add_assoc, Nat.add_comm 1]

/-- What lies ready is used up when it is not enough. -/
theorem collectInto_next_emptied {n : Nat} {i : Input} (hn : ¬ n ≤ i.unread.length) (done : Bytes) :
    ∃ k, n - i.unread.length = k + 1 ∧
      collectInto next n done.reverse i = (next (k + 1) >>= fun b =>
        collectInto next k (b :: (done ++ i.unread).reverse) : Read Bytes)
          { i with unread := [], consumed := i.consumed + i.unread.length } := by
  refine ⟨n - i.unread.length - 1, by omega, ?_⟩
  have hready := collectInto_next_ready i.unread (n - i.unread.length - 1 + 1) done.reverse [] i
  have hn' : i.unread.length + (n - i.unread.length - 1 + 1) = n := by omega
  rw [List.append_nil, hn', collectInto_succ, ← List.reverse_append] at hready
  exact hready

theorem collectInto_next (n : Nat) (done : Bytes) (i : Input) :
    collectInto next n done.reverse i = portions n done i := by
  fun_induction portions n done i with
  | case1 n done i hn =>
    have hready := collectInto_next_ready (i.unread.take n) 0 done.reverse (i.unread.drop n) i
    have hlen : (i.unread.take n).length = n := by
      rw [List.length_take]
      omega
    rw [List.take_append_drop, hlen] at hready
    refine hready.trans ?_
    simp [collectInto]
  | case2 n done i hn emptied e source hs =>
    obtain ⟨k, -, hready⟩ := collectInto_next_emptied hn done
    have hfail : next (k + 1) emptied = .error (.source e) { emptied with source := source } :=
      next_of_read_eq_error (i := emptied) rfl hs (k + 1)
    exact hready.trans (bind_of_error hfail)
  | case3 n done i hn needed emptied source hs =>
    obtain ⟨k, hk, hready⟩ := collectInto_next_emptied hn done
    have hfail : next (k + 1) emptied =
        .error (.truncated emptied.consumed (k + 1)) { emptied with source := source } := by
      simp only [next, emptied, hs]
    rw [← hk] at hready hfail
    exact hready.trans (bind_of_error hfail)
  | case4 n done i hn needed emptied b rest source hs ih =>
    obtain ⟨k, hk, hready⟩ := collectInto_next_emptied hn done
    have hdrawn : next (k + 1) emptied = .ok b
        { emptied with source := source, unread := rest, consumed := emptied.consumed + 1 } := by
      simp only [next, emptied, hs]
    have hfirst : next (k + 1) { emptied with source := source, unread := b :: rest } = .ok b
        { emptied with source := source, unread := rest, consumed := emptied.consumed + 1 } := rfl
    rw [show needed = k + 1 from hk, collectInto_succ, bind_of_ok hfirst] at ih
    rw [hready, bind_of_ok hdrawn, ih, show needed = k + 1 from hk]

/-- Bytes are taken byte by byte or from whole portions, with the same outcome. -/
theorem bytes_eq_portions (n : Nat) : bytes n = portions n [] :=
  funext fun i => collectInto_next n [] i

end Read

namespace Input

open Source (received)

/-! ### Steps -/

/-- What a step returns for the bytes that it takes: the byte itself, just the bytes that are asked
for, or else what it returns wherever it is given these bytes. -/
def Step.Yields (op : Step) (taken : Bytes) (a : Answer) : Prop :=
  match op with
  | .byte => ∃ b, taken = [b] ∧ a = .number b.toNat
  | .bytes n => (taken.length : Int) = n ∧ a = .bytes taken
  | op => ∀ i j, Gives taken i j → op.run i = .ok a j

/-- What becomes of a step that has taken the bytes in `taken`. -/
inductive Step.Outcome (op : Step) (taken : Bytes) : Except ReadError Answer × Input → Prop where
  /-- It is answered with what these bytes yield. -/
  | answered {a : Answer} {j : Input} : op.Yields taken a → Outcome op taken (.ok a, j)
  /-- What has been taken, or asked for, is refused. -/
  | refused {e : ReadError} {j : Input} : e.isVerdict = true → Outcome op taken (.error e, j)
  /-- More bytes are needed, but the source fails or has no more; nothing lies ready then. -/
  | cutShort {e : ReadError} {j : Input} : e.isVerdict = false → j.unread = [] →
    Outcome op taken (.error e, j)

theorem Step.run_bytewise {op : Step} (h : op ≠ .close) : Bytewise op.run := by
  cases op with
  | byte => exact .bind .byte fun _ => .pure _
  | bytes n =>
    refine .bind ?_ fun _ => .pure _
    cases n with
    | ofNat n => exact .bytes n
    | negSucc n => exact .throw rfl
  | length => exact .bind .length fun _ => .pure _
  | text limit => exact .bind (.text limit) fun _ => .pure _
  | compressed limit => exact .bind (.compressedText limit) fun _ => .pure _
  | scoreText => exact .bind .scoreText fun _ => .pure _
  | scoreBinary => exact .bind .scoreBinary fun _ => .pure _
  | littleEndian width => exact .bind (.littleEndian width) fun _ => .pure _
  | close => exact absurd rfl h

theorem Step.exists_gives {op : Step} (h : op ≠ .close) {a : Answer} (hr : op.run i = .ok a j) :
    ∃ taken, Gives taken i j ∧ op.Yields taken a := by
  cases op with
  | byte =>
    obtain ⟨_, ⟨b, rfl, rfl⟩, hg⟩ :=
      (Read.byte_recognises.map (fun b => Answer.number b.toNat) i a j).mp hr
    exact ⟨[b], hg, b, rfl, rfl⟩
  | bytes n =>
    cases n with
    | ofNat n =>
      obtain ⟨taken, ⟨_, ⟨hbs, hlen⟩, rfl⟩, hg⟩ :=
        ((Read.bytes_recognises n).map Answer.bytes i a j).mp hr
      exact ⟨taken, hg, congrArg Int.ofNat hlen, congrArg Answer.bytes hbs⟩
    | negSucc n => cases hr
  | close => exact absurd rfl h
  | _ => exact (Step.run_bytewise h).exists_gives hr

/-- Any step but closing takes bytes and comes to an outcome. -/
theorem step_receipt {op : Step} (h : op ≠ .close) (i : Input) :
    ∃ answers taken, Receipt answers taken i (i.step op).2 ∧ op.Outcome taken (i.step op) := by
  unfold step
  cases hr : op.run i with
  | ok a j =>
    obtain ⟨taken, hg, hyields⟩ := Step.exists_gives h hr
    obtain ⟨answers, hreceipt⟩ := hg.receipt
    exact ⟨answers, taken, hreceipt, .answered hyields⟩
  | error e j =>
    obtain ⟨taken, mid, hg, hstop⟩ := (Step.run_bytewise h).exists_gives_of_error hr
    obtain ⟨answers, hreceipt⟩ := hg.receipt
    rcases hstop with ⟨hverdict, rfl⟩ | ⟨needed, hnext⟩
    · exact ⟨answers, taken, hreceipt, .refused hverdict⟩
    · obtain ⟨more, hlast, hempty, hverdict⟩ := Receipt.of_next_error hnext
      have hall := hreceipt.trans hlast
      rw [List.append_nil] at hall
      exact ⟨answers ++ more, taken, hall, .cutShort hverdict hempty⟩

/-! ### Runs -/

/-- The input after steps in turn. -/
def run (i : Input) (ops : List Step) : Input :=
  ops.foldl (fun i op => (i.step op).2) i

/-- Steps in turn from one input to another: each of them takes the bytes in its place of the list,
and the source gives the answers. -/
inductive Runs : List Step → List (Except Source.Error Bytes) → List Bytes → Input → Input → Prop
    where
  | nil (i : Input) : Runs [] [] [] i i
  | cons {op : Step} {ops : List Step} {answers more : List (Except Source.Error Bytes)}
    {taken : Bytes} {takes : List Bytes} {i j : Input} :
    Receipt answers taken i (i.step op).2 → op.Outcome taken (i.step op) →
      Runs ops more takes (i.step op).2 j → Runs (op :: ops) (answers ++ more) (taken :: takes) i j

variable {op : Step} {ops : List Step} {takes : List Bytes}

/-- What the steps of a run take, one after the other, is what the run takes. -/
theorem Runs.receipt (h : Runs ops answers takes i j) : Receipt answers takes.flatten i j := by
  induction h with
  | nil i => exact .refl i
  | cons hfirst _ _ ih => exact hfirst.trans ih

theorem exists_runs (h : Step.close ∉ ops) (i : Input) :
    ∃ answers takes, Runs ops answers takes i (i.run ops) := by
  induction ops generalizing i with
  | nil => exact ⟨[], [], .nil i⟩
  | cons op ops ih =>
    have hop : op ≠ .close := (List.ne_of_not_mem_cons h).symm
    obtain ⟨answers, taken, hreceipt, houtcome⟩ := step_receipt hop i
    obtain ⟨more, takes, hruns⟩ := ih (List.not_mem_of_not_mem_cons h) (i.step op).2
    exact ⟨answers ++ more, taken :: takes, .cons hreceipt houtcome hruns⟩

/-! ### Closing -/

theorem step_close_of_closed {i : Input} (h : i.closed = true) : (i.step .close).2 = i := by
  change i.close = i
  rw [close, h]
  rfl

/-- A closed input stays as it is when it is closed again. -/
theorem run_filter_of_closed {i : Input} (h : i.closed = true) (ops : List Step) :
    i.run (ops.filter (· ≠ .close)) = i.run ops := by
  induction ops generalizing i with
  | nil => rfl
  | cons op ops ih =>
    by_cases hop : op = .close
    · subst hop
      rw [List.filter_cons_of_neg (by simp), ih h]
      exact congrArg (fun i : Input => i.run ops) (step_close_of_closed h).symm
    · obtain ⟨_, _, hreceipt, -⟩ := step_receipt hop i
      rw [List.filter_cons_of_pos (by simpa using hop)]
      exact ih (hreceipt.closed.trans h)

/-- What a run from a new input has received, it has handed out or keeps ready. -/
theorem Runs.received {source : Source} {size : Int}
    (h : Runs ops answers takes { source := source, bufferSize := size } i) :
    source.Answers size answers i.source ∧ i.consumed = takes.flatten.length ∧
      received answers = takes.flatten ++ i.unread := by
  obtain ⟨hasked, hstream, hconsumed, -, -⟩ := h.receipt
  exact ⟨hasked, hconsumed.trans (Nat.zero_add _), hstream⟩

/-- A step of a run that is cut short has used up all that the run has received. -/
theorem Runs.cutShort {source : Source} {size : Int} {e : ReadError}
    (h : Runs ops answers takes { source := source, bufferSize := size } i) (hop : op ≠ .close)
    (hstep : i.step op = (.error e, j)) (hverdict : e.isVerdict = false) :
    j.unread = [] ∧ ∃ answers, source.Answers size answers j.source ∧
      j.consumed = (Source.received answers).length := by
  obtain ⟨more, taken, hreceipt, houtcome⟩ := step_receipt hop i
  rw [hstep] at hreceipt houtcome
  cases houtcome with
  | refused hv => cases hv.symm.trans hverdict
  | cutShort _ hempty =>
    obtain ⟨hasked, hstream, hconsumed, -, -⟩ := h.receipt.trans hreceipt
    rw [hempty, List.append_nil] at hstream
    refine ⟨hempty, answers ++ more, hasked, ?_⟩
    rw [hconsumed, ← hstream]
    exact Nat.zero_add _

/-- Asking for no byte, or for a negative number of them, changes nothing. -/
theorem step_bytes_of_nonpos {n : Int} (h : n ≤ 0) (i : Input) : i.step (.bytes n) =
    (if n < 0 then .error (.negativeRequest n) else .ok (.bytes []), i) := by
  cases n with
  | ofNat n =>
    obtain rfl : n = 0 := by
      have hn : (n : Int) ≤ 0 := h
      omega
    rfl
  | negSucc n => exact congrArg (·, i) (if_pos (Int.negSucc_lt_zero n)).symm

/-- **Every byte received is handed out once, in order, or lies ready.** The steps of a run before
an input is closed take, one after the other, the first bytes that have been received, as many as
are counted, and the rest lies ready; what has been received are the portions of the script as far
as it has been asked for. When the source cuts a step short, everything that has been received is
counted and nothing lies ready. What is handed out after the input is closed has been received after
that, and the source is closed once. Asking for no byte or for a negative number of them changes
nothing. It is all the same whether bytes are taken one by one or from whole portions. -/
theorem bytes_accounted (source : Source) (size : Int) (before : List Step)
    (h : Step.close ∉ before) (after : List Step) :
    let start : Input := { source := source, bufferSize := size }
    let i := start.run before
    let j := i.run (.close :: after)
    (∃ answers takes, Runs before answers takes start i ∧
      source.Answers size answers i.source ∧ i.consumed = takes.flatten.length ∧
      Source.received answers = takes.flatten ++ i.unread ∧
      (∀ script, source.supply = .script script →
        i.source.supply = .script (script.drop answers.length) ∧
          Source.received answers =
            ((script.take answers.length).map fun p => p.getD []).flatten)) ∧
    (∀ op e k, op ≠ .close → i.step op = (.error e, k) → e.isVerdict = false →
      k.unread = [] ∧ ∃ answers, source.Answers size answers k.source ∧
        k.consumed = (Source.received answers).length) ∧
    (∃ answers takes, Runs (after.filter (· ≠ .close)) answers takes i.close j ∧
      i.source.close.Answers size answers j.source ∧
      j.consumed = i.consumed + takes.flatten.length ∧
      Source.received answers = takes.flatten ++ j.unread) ∧
    j.source.closeCalls = source.closeCalls + 1 ∧
    (∀ (n : Int), n ≤ 0 → ∀ k : Input, k.step (.bytes n) =
      (if n < 0 then .error (.negativeRequest n) else .ok (.bytes []), k)) ∧
    ∀ n, Read.bytes n = Read.portions n [] := by
  intro start i j
  obtain ⟨answers, takes, hruns⟩ := exists_runs h start
  obtain ⟨hasked, hconsumed, hreceived⟩ := hruns.received
  have hopen : i.closed = false := hruns.receipt.closed
  have hsize : i.bufferSize = size := hruns.receipt.bufferSize
  have hclose : i.close = { i with closed := true, unread := [], source := i.source.close } := by
    rw [close, hopen]
    rfl
  have hlater : Step.close ∉ after.filter (· ≠ .close) := by simp
  have hj : j = i.close.run (after.filter (· ≠ .close)) :=
    (run_filter_of_closed (congrArg Input.closed hclose) after).symm
  obtain ⟨more, later, hafter⟩ := exists_runs hlater i.close
  rw [← hj] at hafter
  obtain ⟨hasked', hstream', hconsumed', -, -⟩ := hafter.receipt
  simp only [hclose] at hasked' hstream' hconsumed'
  refine ⟨⟨answers, takes, hruns, hasked, hconsumed, hreceived, fun script hs => hasked.script hs⟩,
    fun op e k hop hstep hverdict => hruns.cutShort hop hstep hverdict,
    ⟨more, later, hafter, hsize ▸ hasked', hconsumed', hstream'⟩, ?_,
    fun n hn k => step_bytes_of_nonpos hn k, Read.bytes_eq_portions⟩
  rw [hasked'.closeCalls]
  exact congrArg (· + 1) hasked.closeCalls

/-- An input over a script with an empty portion and one that is missing. -/
def overGaps : Input :=
  { source := .ofPortions [some [1, 2, 3], some [], none, some [4, 5]], bufferSize := 2 }

/-- Four bytes that are asked for behind the first one are cut short by the empty portion, which
uses up the first portion; the missing one fails, and a byte of the last one is left. -/
theorem bytes_accounted_overGaps :
    Step.close ∉ [Step.byte, .bytes 4, .byte, .bytes 1] ∧
      (∃ answers takes, Runs [.byte, .bytes 4, .byte, .bytes 1] answers takes overGaps
          (overGaps.run [.byte, .bytes 4, .byte, .bytes 1]) ∧
        takes.flatten.length = 4 ∧ received answers = takes.flatten ++ [5]) ∧
      (overGaps.run [.byte, .bytes 4]).unread = [] ∧
      (overGaps.run [.byte, .bytes 4, .byte, .bytes 1, .close, .byte, .close]).source.closeCalls =
        1 := by
  have hopen : Step.close ∉ [Step.byte, .bytes 4, .byte, .bytes 1] := by decide
  have hshort : Step.close ∉ [Step.byte] := by decide
  obtain ⟨⟨answers, takes, hruns, -, hconsumed, hreceived, -⟩, -, -, hcloses, -⟩ :=
    bytes_accounted overGaps.source overGaps.bufferSize _ hopen [.byte, .close]
  have hcut := (bytes_accounted overGaps.source overGaps.bufferSize _ hshort []).2.1
    (.bytes 4) (.truncated 3 2) (overGaps.run [.byte, .bytes 4]) (by decide) rfl rfl
  exact ⟨hopen, ⟨answers, takes, hruns, hconsumed.symm, hreceived⟩, hcut.1, hcloses⟩

end Input

end RedisDump
