import RedisDump.Proofs.Packed.Scanning

/-!
# Loops over packed containers

After its header a container is decoded by a loop, which reads one element after the other, as many
as a count says or up to the end mark. The turns of a loop are told by a relation that says which
elements are complete when it stops, and with what (`Scan.Stops`); it holds of one list of elements
only (`Scan.Stops.unique`). A computation is the loop that its header opens when it ends as the loop
stops, on every input (`Scan.Opens`). Every element that is complete has taken bytes of its own, and
there are only so many (`Scan.Stops.room`).
-/

namespace RedisDump

namespace Scan

/-! ### Loops -/

/-- The answer with which a computation ends. -/
def answer {α : Type} : EStateM.Result PackedError Scanner α → Except PackedError α
  | .ok a _ => .ok a
  | .error e _ => .error e

theorem answer_bind {α β : Type} (r : Scan α) (k : α → Scan β) (s : Scanner) :
    answer ((r >>= k) s) = match r s with
      | .ok a s' => answer (k a s')
      | .error e _ => .error e := by
  cases hr : r s with
  | error e s' => rw [bind_of_error hr, answer]
  | ok a s' => rw [bind_of_ok hr]

/-- A loop over the elements of a container. -/
structure Loop (α : Type) where
  /-- The next turn when so many elements are complete: it reads another element, or finds that
  there is none and passes over what has to follow the elements. -/
  turn (complete : Nat) : Scan (Option α)

variable {α β : Type}

/-- From a place behind the elements `xs` the loop stops when the elements `ys` are complete, with
the given answer. -/
inductive Loop.Stops (l : Loop α) :
    (xs : List α) → Scanner → (ys : List α) → Except PackedError (List α) → Prop where
  /-- There are no more elements. -/
  | ended {xs : List α} {s s' : Scanner} : l.turn xs.length s = .ok none s' →
    Stops l xs s xs (.ok xs)
  /-- There is something wrong, in the next element or behind the last. -/
  | broken {xs : List α} {s s' : Scanner} {e : PackedError} :
    l.turn xs.length s = .error e s' → Stops l xs s xs (.error e)
  /-- The next element is complete. -/
  | further {xs ys : List α} {s s' : Scanner} {a : α} {out : Except PackedError (List α)} :
    l.turn xs.length s = .ok (some a) s' → Stops l (xs ++ [a]) s' ys out → Stops l xs s ys out

/-- A container whose header opens a loop over its elements stops when the elements `xs` are
complete, with the given answer. -/
inductive Stops (opening : Scan (Loop α)) (s : Scanner) :
    (xs : List α) → Except PackedError (List α) → Prop where
  /-- The header cannot be read. -/
  | unopened {s' : Scanner} {e : PackedError} : opening s = .error e s' →
    Stops opening s [] (.error e)
  /-- The loop stops. -/
  | opened {s' : Scanner} {l : Loop α} {xs : List α} {out : Except PackedError (List α)} :
    opening s = .ok l s' → l.Stops [] s' xs out → Stops opening s xs out

/-- A loop stops in one way only. The induction is on the turns of one of two runs. -/
theorem Loop.Stops.unique {l : Loop α} {xs ys zs : List α} {s : Scanner}
    {out out' : Except PackedError (List α)} (h : l.Stops xs s ys out)
    (h' : l.Stops xs s zs out') : ys = zs ∧ out = out' := by
  induction h with
  | ended ht =>
    cases h' with
    | ended => exact ⟨rfl, rfl⟩
    | broken ht' => cases ht.symm.trans ht'
    | further ht' => cases ht.symm.trans ht'
  | broken ht =>
    cases h' with
    | ended ht' => cases ht.symm.trans ht'
    | broken ht' =>
      cases ht.symm.trans ht'
      exact ⟨rfl, rfl⟩
    | further ht' => cases ht.symm.trans ht'
  | further ht _ ih =>
    cases h' with
    | ended ht' => cases ht.symm.trans ht'
    | broken ht' => cases ht.symm.trans ht'
    | further ht' hs' =>
      cases ht.symm.trans ht'
      exact ih hs'

/-- A container stops in one way only. -/
theorem Stops.unique {opening : Scan (Loop α)} {s : Scanner} {xs ys : List α}
    {out out' : Except PackedError (List α)} (h : Stops opening s xs out)
    (h' : Stops opening s ys out') : xs = ys ∧ out = out' := by
  cases h with
  | unopened ho =>
    cases h' with
    | unopened ho' =>
      cases ho.symm.trans ho'
      exact ⟨rfl, rfl⟩
    | opened ho' => cases ho.symm.trans ho'
  | opened ho hs =>
    cases h' with
    | unopened ho' => cases ho.symm.trans ho'
    | opened ho' hs' =>
      cases ho.symm.trans ho'
      exact hs.unique hs'

/-- A turn that reads another element. -/
def another (item : Scan α) : Scan (Option α) :=
  return some (← item)

/-- A turn that passes over what follows the elements. -/
def last (finish : Scan Unit) : Scan (Option α) := do
  finish
  return none

/-- A loop that reads `n` elements, and then what follows them. -/
def Loop.counted (n : Nat) (item : Scan α) (finish : Scan Unit) : Loop α where
  turn k := if k < n then another item else last finish

/-- A loop that reads elements up to the end mark, and then what follows them. -/
def Loop.walk (item : Scan α) (finish : Scan Unit) : Loop α where
  turn _ := do
    if (← peek) = endMark then last finish
    else another item

/-! ### Computations as loops -/

/-- The computation is the loop that the header opens: it ends as the loop stops. -/
def Opens (opening : Scan (Loop α)) (r : Scan (List α)) : Prop :=
  ∀ s, ∃ xs, Stops opening s xs (answer (r s))

theorem Stops.of_bind {header : Scan β} {opening : β → Scan (Loop α)} {s s' : Scanner} {b : β}
    {xs : List α} {out : Except PackedError (List α)} (hb : header s = .ok b s')
    (h : Stops (opening b) s' xs out) : Stops (header >>= opening) s xs out := by
  cases h with
  | unopened he => exact .unopened ((bind_of_ok hb).trans he)
  | opened hl hs => exact .opened ((bind_of_ok hb).trans hl) hs

namespace Opens

theorem bind (header : Scan β) {opening : β → Scan (Loop α)} {r : β → Scan (List α)}
    (h : ∀ b, Opens (opening b) (r b)) : Opens (header >>= opening) (header >>= r) := by
  intro s
  cases hb : header s with
  | error e s' =>
    rw [bind_of_error hb]
    exact ⟨[], .unopened (bind_of_error hb)⟩
  | ok b s' =>
    rw [bind_of_ok hb]
    obtain ⟨xs, hs⟩ := h b s'
    exact ⟨xs, hs.of_bind hb⟩

theorem fail (flaw : String) : Opens (fail flaw : Scan (Loop α)) (fail flaw) :=
  fun _ => ⟨[], .unopened rfl⟩

theorem loop {l : Loop α} {r : Scan (List α)} (h : ∀ s, ∃ xs, l.Stops [] s xs (answer (r s))) :
    Opens (Pure.pure l) r := by
  intro s
  obtain ⟨xs, hs⟩ := h s
  exact ⟨xs, .opened rfl hs⟩

end Opens

section Loops

variable {item : Scan α} {finish : Scan Unit}

theorem another_of_ok {a : α} {s s' : Scanner} (h : item s = .ok a s') :
    another item s = .ok (some a) s' :=
  bind_of_ok h

theorem another_of_error {e : PackedError} {s s' : Scanner} (h : item s = .error e s') :
    another item s = .error e s' :=
  bind_of_error h

/-- What follows the elements decides how a loop without more elements stops. -/
theorem Loop.stops_last {l : Loop α} {xs : List α} {s : Scanner}
    (ht : l.turn xs.length s = last finish s) :
    l.Stops xs s xs (answer ((do finish; return xs : Scan (List α)) s)) := by
  cases hf : finish s with
  | error e s' =>
    rw [bind_of_error hf]
    exact .broken (ht.trans (bind_of_error hf))
  | ok _ s' =>
    rw [bind_of_ok hf]
    exact .ended (ht.trans (bind_of_ok hf))

/-- Counted elements are read by a loop. The induction is on the number of those to come. -/
theorem Loop.counted_stops (n m : Nat) (done : List α) (hn : done.length + m = n) (s : Scanner) :
    ∃ ys, (counted n item finish).Stops done.reverse s ys
      (answer ((do let xs ← collectInto (fun _ => item) m done; finish; return xs) s)) := by
  induction m generalizing done s with
  | zero =>
    have hlast : ¬ done.reverse.length < n := by
      rw [List.length_reverse]
      omega
    exact ⟨done.reverse, stops_last (congrFun (if_neg hlast) s)⟩
  | succ m ih =>
    have hlt : done.reverse.length < n := by
      rw [List.length_reverse]
      omega
    have ht : (counted n item finish).turn done.reverse.length s = another item s :=
      congrFun (if_pos hlt) s
    rw [collectInto_succ]
    simp only [bind_assoc]
    cases hi : item s with
    | error e s' =>
      rw [bind_of_error hi]
      exact ⟨_, .broken (ht.trans (another_of_error hi))⟩
    | ok a s' =>
      rw [bind_of_ok hi]
      obtain ⟨ys, hs⟩ := ih (a :: done) (by rw [List.length_cons]; omega) s'
      rw [List.reverse_cons] at hs
      exact ⟨ys, .further (ht.trans (another_of_ok hi)) hs⟩

/-- The next byte tells what the turn is. -/
theorem Loop.walk_turn {b : UInt8} {s s' : Scanner} (k : Nat) (hp : peek s = .ok b s') :
    (walk item finish).turn k s = (if b = endMark then last finish else another item) s' :=
  bind_of_ok hp

/-- Elements up to the end mark are read by a loop. The induction is along the walk. -/
theorem Loop.walk_stops (eager : Eager Scanner.remaining item) (done : List α) (s : Scanner) :
    ∃ ys, (walk item finish).Stops done.reverse s ys
      (answer ((do let xs ← untilEndInto item eager done; finish; return xs) s)) := by
  rw [answer_bind]
  fun_induction untilEndInto item eager done s with
  | case1 done s e s' hp => exact ⟨_, .broken (bind_of_error hp)⟩
  | case2 done s s' hp =>
    obtain ⟨rfl, -⟩ := peek_eq_ok_iff.mp hp
    exact ⟨_, stops_last (walk_turn _ hp)⟩
  | case3 done s b s' hp hb e s'' hi =>
    obtain ⟨rfl, -⟩ := peek_eq_ok_iff.mp hp
    have ht : (walk item finish).turn done.reverse.length s' = another item s' :=
      (walk_turn _ hp).trans (congrFun (if_neg hb) s')
    exact ⟨_, .broken (ht.trans (another_of_error hi))⟩
  | case4 done s b s' hp hb a s'' hi ih =>
    obtain ⟨rfl, -⟩ := peek_eq_ok_iff.mp hp
    have ht : (walk item finish).turn done.reverse.length s' = another item s' :=
      (walk_turn _ hp).trans (congrFun (if_neg hb) s')
    obtain ⟨ys, hs⟩ := ih
    rw [List.reverse_cons] at hs
    exact ⟨ys, .further (ht.trans (another_of_ok hi)) hs⟩

theorem Opens.counted (n : Nat) (item : Scan α) (finish : Scan Unit) :
    Opens (Pure.pure (Loop.counted n item finish))
      (do let xs ← collect (fun _ => item) n; finish; return xs) :=
  .loop fun s => Loop.counted_stops n n [] (Nat.zero_add n) s

theorem Opens.walk (eager : Eager Scanner.remaining item) (finish : Scan Unit) :
    Opens (Pure.pure (Loop.walk item finish))
      (do let xs ← untilEnd item eager; finish; return xs) :=
  .loop fun s => Loop.walk_stops eager [] s

end Loops

/-! ### Room for elements -/

/-- Every success of the computation takes at least `w` bytes; with no byte it is steady, with one
eager. -/
def Takes (w : Nat) (r : Scan α) : Prop :=
  ∀ s a s', r s = .ok a s' → w + s'.remaining ≤ s.remaining

theorem Takes.pure (a : α) : Takes 0 (Pure.pure a : Scan α) := by
  rintro s _ _ ⟨⟩
  omega

/-- What is recognised takes its own bytes. -/
theorem Takes.of_recognises {r : Scan α} {form : α → Bytes → Prop} (h : Recognises r form) {w : Nat}
    (hw : ∀ a bs, form a bs → w ≤ bs.length) : Takes w r := by
  intro s a s' hr
  obtain ⟨bs, hform, hp⟩ := (h _ _ _).mp hr
  have hlen := hw a bs hform
  rw [Scanner.remaining, Scanner.remaining, hp.rest, List.length_append]
  omega

theorem Takes.byte : Takes 1 byte :=
  .of_recognises Recognises.byte fun _ _ h => Nat.le_of_eq (by rw [h, List.length_singleton])

theorem Takes.skip (n : Nat) : Takes n (skip n) :=
  .of_recognises (Recognises.skip n) fun _ _ h => Nat.le_of_eq h.symm

theorem Takes.littleEndian (width : Nat) : Takes width (littleEndian width) :=
  .of_recognises (Recognises.littleEndian width) fun _ _ h =>
    Nat.le_of_eq (by rw [h.2, Bytes.length_leBytes])

/-- A turn that takes at least `w` bytes for an element, and finds at least `rest` bytes behind the
last one. -/
structure Turns (w rest : Nat) (turn : Scan (Option α)) : Prop where
  another : ∀ s a s', turn s = .ok (some a) s' → w + s'.remaining ≤ s.remaining
  last : ∀ s s', turn s = .ok none s' → rest ≤ s.remaining

namespace Turns

variable {w rest : Nat}

theorem item {item : Scan α} (h : Takes w item) : Turns w rest (Scan.another item) where
  another s a s' ht := by
    obtain ⟨b, s₁, hi, ⟨⟩⟩ := bind_eq_ok ht
    exact h _ _ _ hi
  last s s' ht := by
    obtain ⟨b, s₁, -, ⟨⟩⟩ := bind_eq_ok ht

theorem finish {finish : Scan Unit} (h : Takes rest finish) :
    Turns w rest (Scan.last finish : Scan (Option α)) where
  another s a s' ht := by
    obtain ⟨_, s₁, -, ⟨⟩⟩ := bind_eq_ok ht
  last s s' ht := by
    obtain ⟨_, s₁, hf, -⟩ := bind_eq_ok ht
    have htaken := h _ _ _ hf
    omega

/-- The byte that a turn looks at is left behind the last element. -/
theorem peek {k : UInt8 → Scan (Option α)} {rest' : Nat} (h : ∀ b, Turns w rest' (k b))
    (hrest : rest ≤ max 1 rest') : Turns w rest (Scan.peek >>= k) where
  another s a s' ht := by
    obtain ⟨b, s₁, hp, hk⟩ := bind_eq_ok ht
    obtain ⟨rfl, -⟩ := peek_eq_ok_iff.mp hp
    exact (h b).another _ _ _ hk
  last s s' ht := by
    obtain ⟨b, s₁, hp, hk⟩ := bind_eq_ok ht
    obtain ⟨rfl, hhead⟩ := peek_eq_ok_iff.mp hp
    obtain ⟨tail, htail⟩ := List.head?_eq_some_iff.mp hhead
    have hpos : 1 ≤ s₁.remaining := by
      rw [Scanner.remaining, htail, List.length_cons]
      omega
    have hle := (h b).last _ _ hk
    omega

end Turns

/-- A loop whose first `k` elements take at least `need k` bytes, and that finds at least `rest`
bytes behind the last one. -/
structure Loop.Needs (l : Loop α) (need : Nat → Nat) (rest : Nat) : Prop where
  zero : need 0 = 0
  turn : ∀ k, Turns (need (k + 1) - need k) rest (l.turn k)

/-- A loop all of whose turns need as much. -/
theorem Loop.Needs.of_turns {l : Loop α} {w rest : Nat} (h : ∀ k, Turns w rest (l.turn k)) :
    l.Needs (w * ·) rest where
  zero := Nat.mul_zero w
  turn k := by
    rw [Nat.mul_succ, Nat.add_sub_cancel_left]
    exact h k

section Loops

variable {item : Scan α} {finish : Scan Unit} {w rest : Nat}

theorem Loop.counted_needs (n : Nat) (hi : Takes w item) (hf : Takes rest finish) :
    (counted n item finish).Needs (w * ·) rest := by
  refine .of_turns fun k => ?_
  simp only [counted]
  split
  · exact .item hi
  · exact .finish hf

theorem Loop.walk_needs (hi : Takes w item) (hf : Takes rest finish) :
    (walk item finish).Needs (w * ·) rest := by
  refine .of_turns fun k => .peek (fun b => ?_) (Nat.le_max_right 1 rest)
  split
  · exact .finish hf
  · exact .item hi

end Loops

/-- The elements that are complete when a loop stops have taken their bytes, and those of a list
that is returned have left enough for the end. -/
theorem Loop.Stops.room {l : Loop α} {need : Nat → Nat} {rest : Nat} (hl : l.Needs need rest)
    {xs ys : List α} {s : Scanner} {out : Except PackedError (List α)} (h : l.Stops xs s ys out) :
    need ys.length ≤ need xs.length + s.remaining ∧
      ∀ zs, out = .ok zs → zs = ys ∧ need ys.length + rest ≤ need xs.length + s.remaining := by
  induction h with
  | @ended xs s s' ht =>
    have hrest := (hl.turn _).last _ _ ht
    refine ⟨Nat.le_add_right _ _, ?_⟩
    rintro zs ⟨⟩
    exact ⟨rfl, by omega⟩
  | broken => exact ⟨Nat.le_add_right _ _, nofun⟩
  | @further xs ys s s' a out ht _ ih =>
    have htaken := (hl.turn _).another _ _ _ ht
    rw [List.length_append, List.length_singleton] at ih
    refine ⟨by omega, fun zs hz => ?_⟩
    obtain ⟨rfl, hle⟩ := ih.2 zs hz
    exact ⟨rfl, by omega⟩

/-- A header of at least `header` bytes that opens a loop with these needs. -/
def OpensNeeding (header : Nat) (need : Nat → Nat) (rest : Nat) (opening : Scan (Loop α)) : Prop :=
  ∀ s l s', opening s = .ok l s' → header + s'.remaining ≤ s.remaining ∧ l.Needs need rest

/-- What is complete when a container stops has had room behind its header. -/
theorem Stops.room {opening : Scan (Loop α)} {header rest : Nat} {need : Nat → Nat}
    (hneeds : OpensNeeding header need rest opening) {s : Scanner} {xs : List α}
    {out : Except PackedError (List α)} (h : Stops opening s xs out) :
    (xs ≠ [] → header + need xs.length ≤ s.remaining) ∧
      ∀ zs, out = .ok zs → zs = xs ∧ header + need xs.length + rest ≤ s.remaining := by
  cases h with
  | unopened => exact ⟨fun hne => absurd rfl hne, nofun⟩
  | opened ho hs =>
    obtain ⟨hheader, hl⟩ := hneeds _ _ _ ho
    obtain ⟨hle, hok⟩ := hs.room hl
    rw [List.length_nil, hl.zero] at hle hok
    refine ⟨fun _ => by omega, fun zs hz => ?_⟩
    obtain ⟨rfl, hle⟩ := hok zs hz
    exact ⟨rfl, by omega⟩

namespace OpensNeeding

variable {header rest w : Nat} {need : Nat → Nat}

theorem bind {r : Scan β} {opening : β → Scan (Loop α)} (hr : Takes w r)
    (h : ∀ b, OpensNeeding header need rest (opening b)) :
    OpensNeeding (w + header) need rest (r >>= opening) := by
  intro s l s' ho
  obtain ⟨b, s₁, h₁, h₂⟩ := bind_eq_ok ho
  have htaken := hr _ _ _ h₁
  obtain ⟨hheader, hl⟩ := h b _ _ _ h₂
  exact ⟨by omega, hl⟩

theorem loop {l : Loop α} (hl : l.Needs need rest) :
    OpensNeeding 0 need rest (Pure.pure l) := by
  rintro s _ _ ⟨⟩
  exact ⟨by omega, hl⟩

theorem fail (flaw : String) : OpensNeeding header need rest (fail flaw : Scan (Loop α)) :=
  fun _ _ _ => nofun

end OpensNeeding

end Scan

end RedisDump
