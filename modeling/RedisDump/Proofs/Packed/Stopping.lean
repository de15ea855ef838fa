import RedisDump.Proofs.Outcome.Containers
import RedisDump.Proofs.Packed.Intset
import RedisDump.Proofs.Packed.Listpack
import RedisDump.Proofs.Packed.Loops
import RedisDump.Proofs.Packed.Ziplist
import RedisDump.Proofs.Packed.Zipmap

/-!
# Packed containers are decoded in time

A count may be any number of two or four bytes and the end mark may be missing, so it is the bytes
that bound the loop of a decoder. No element is shorter than two bytes, but for the key of a zipmap;
so a decoder stops on all bytes, with a list or with an error about them, and after no more elements
than the bytes have room for (`decoders_stop`). The end mark is looked for only behind the elements:
a loop that does not find it may have completed an element more than a list that is returned can
have (`Listpack.not_stopsInTime`).
-/

namespace RedisDump

open Scan

/-! ### Ziplists -/

namespace Ziplist

/-- The loop over the entries of a ziplist. -/
def opening (cutoff : Int) : Scan (Loop Bytes) := do
  skip leadingBytes
  let count ← littleEndian 2
  if count < uncounted then return .counted count (entry cutoff) (return ())
  else return .walk (entry cutoff) (return ())

theorem elements_opens (cutoff : Int) : Opens (opening cutoff) (elements cutoff) := by
  refine .bind _ fun _ => .bind _ fun count => ?_
  split
  · simpa only [pure_bind, bind_pure] using Opens.counted count (entry cutoff) (return ())
  · simpa only [pure_bind, bind_pure] using Opens.walk (entry_eager cutoff) (return ())

/-- An entry takes a byte for the length of the one before, and one for its element. -/
theorem entry_takes (cutoff : Int) : Takes 2 (entry cutoff) := by
  refine .of_recognises (entry_recognises cutoff) fun s bs h => ?_
  obtain ⟨hprevious, helement⟩ := h
  obtain ⟨b, cs, rfl⟩ := hprevious.exists_cons
  obtain ⟨c, ds, rfl⟩ := helement.exists_cons
  simp only [List.length_append, List.length_cons]
  omega

theorem opening_needs (cutoff : Int) : OpensNeeding 10 (2 * ·) 0 (opening cutoff) := by
  change OpensNeeding (leadingBytes + (2 + 0)) _ _ _
  refine .bind (.skip leadingBytes) fun _ => .bind (.littleEndian 2) fun count => ?_
  split
  · exact .loop (Loop.counted_needs count (entry_takes cutoff) (.pure ()))
  · exact .loop (Loop.walk_needs (entry_takes cutoff) (.pure ()))

end Ziplist

/-! ### Listpacks -/

namespace Listpack

/-- The loop over the elements of a listpack, with the end mark behind them. -/
def opening : Scan (Loop Bytes) := do
  skip leadingBytes
  let count ← littleEndian 2
  if count < uncounted then return .counted count element finish
  else return .walk element finish

theorem elements_opens : Opens opening elements := by
  simp only [elements, body, bind_assoc]
  refine .bind _ fun _ => .bind _ fun count => ?_
  split
  · exact .counted count element finish
  · exact .walk element_eager finish

theorem backlenWidth_pos (n : Int) : 1 ≤ backlenWidth n := by
  unfold backlenWidth
  repeat' split
  all_goals omega

/-- An element takes a byte for its form, and one for its size. -/
theorem element_takes : Takes 2 element := by
  refine .of_recognises element_recognises fun s bs h => ?_
  obtain @⟨body, size, hbody, hsize⟩ := h
  obtain ⟨b, cs, rfl⟩ := hbody.exists_cons
  have hpos := backlenWidth_pos (b :: cs).length
  rw [List.length_append, hsize, List.length_cons]
  rw [List.length_cons] at hpos
  omega

theorem finish_takes : Takes 1 finish := by
  intro s _ s' h
  have hp := finish_eq_ok_iff.mp h
  refine Nat.le_of_eq ?_
  rw [Scanner.remaining, Scanner.remaining, hp.rest, List.length_append, List.length_singleton]

theorem opening_needs : OpensNeeding 6 (2 * ·) 1 opening := by
  change OpensNeeding (leadingBytes + (2 + 0)) _ _ _
  refine .bind (.skip leadingBytes) fun _ => .bind (.littleEndian 2) fun count => ?_
  split
  · exact .loop (Loop.counted_needs count element_takes finish_takes)
  · exact .loop (Loop.walk_needs element_takes finish_takes)

end Listpack

/-! ### Intsets -/

namespace Intset

/-- The loop over the members of an intset. -/
def opening : Scan (Loop Bytes) := do
  let width ← littleEndian 4
  let count ← littleEndian 4
  if width ∈ widths then return .counted count (member width) (return ())
  else fail s!"unknown intset encoding {width}"

theorem elements_opens : Opens opening elements := by
  refine .bind _ fun width => .bind _ fun count => ?_
  split
  · simpa only [pure_bind, bind_pure] using Opens.counted count (member width) (return ())
  · exact .fail _

/-- A member takes at least two bytes. -/
theorem member_takes {width : Nat} (hw : width ∈ widths) : Takes 2 (member width) := by
  have hle : 2 ≤ width := by
    simp only [widths, List.mem_cons, List.not_mem_nil, or_false] at hw
    omega
  refine .of_recognises (member_recognises (bounds_of_mem_widths hw).1) ?_
  rintro s bs ⟨z, ⟨-, rfl⟩, rfl⟩
  rwa [Bytes.length_signedBytes]

theorem opening_needs : OpensNeeding 8 (2 * ·) 0 opening := by
  change OpensNeeding (4 + (4 + 0)) _ _ _
  refine .bind (.littleEndian 4) fun width => .bind (.littleEndian 4) fun count => ?_
  split
  · rename_i hw
    exact .loop (Loop.counted_needs count (member_takes hw) (.pure ()))
  · exact .fail _

end Intset

/-! ### Zipmaps -/

namespace Zipmap

/-- The loop over the keys and values of a zipmap, in turn. The end mark is looked for only before
a key, as on a walk over keys. -/
def loop : Loop Bytes where
  turn k := if k % 2 = 0 then (Loop.walk key (return ())).turn k else another value

/-- The loop over the keys and values of a zipmap, behind its count. -/
def opening : Scan (Loop Bytes) := do
  let _ ← byte
  return loop

section Turns

variable {xs ys : List Bytes} {s s' : Scanner} {b : UInt8} (hxs : xs.length % 2 = 0)

include hxs

/-- Before a key the next byte tells what the turn is. -/
theorem loop_turn (hp : peek s = .ok b s') : loop.turn xs.length s =
    (if b = endMark then last (return ()) else another key : Scan (Option Bytes)) s' :=
  (congrFun (if_pos hxs) s).trans (Loop.walk_turn _ hp)

/-- Behind a key stands its value. -/
theorem loop_turn_value (k : Bytes) : loop.turn (xs ++ [k]).length = another value := by
  have hodd : ¬ (xs ++ [k]).length % 2 = 0 := by
    rw [List.length_append, List.length_singleton]
    omega
  exact if_neg hodd

variable (hp : peek s = .ok b s) (hb : b ≠ endMark)

include hp hb

/-- A pair takes two turns. -/
theorem loop_stops_of_pair {p : Bytes × Bytes} {out : Except PackedError (List Bytes)}
    (h : pair s = .ok p s') (hs : loop.Stops (xs ++ [p.1, p.2]) s' ys out) :
    loop.Stops xs s ys out := by
  have ht := (loop_turn hxs hp).trans (congrFun (if_neg hb) s)
  obtain ⟨k, s₁, hk, h⟩ := bind_eq_ok h
  obtain ⟨v, s₂, hv, ⟨⟩⟩ := bind_eq_ok h
  have ht' : loop.turn (xs ++ [k]).length s₁ = .ok (some v) s' := by
    rw [loop_turn_value hxs]
    exact another_of_ok hv
  refine .further (ht.trans (another_of_ok hk)) (.further ht' ?_)
  rwa [List.append_assoc]

/-- A pair that cannot be read breaks off the loop in one of its two turns. -/
theorem loop_stops_of_pair_error {e : PackedError} (h : pair s = .error e s') :
    ∃ ys, loop.Stops xs s ys (.error e) := by
  have ht := (loop_turn hxs hp).trans (congrFun (if_neg hb) s)
  cases hk : key s with
  | error e₁ s₁ =>
    cases (bind_of_error hk).symm.trans h
    exact ⟨xs, .broken (ht.trans (another_of_error hk))⟩
  | ok k s₁ =>
    have h := (bind_of_ok hk).symm.trans h
    cases hv : value s₁ with
    | error e₂ s₂ =>
      cases (bind_of_error hv).symm.trans h
      have ht' : loop.turn (xs ++ [k]).length s₁ = .error e s' := by
        rw [loop_turn_value hxs]
        exact another_of_error hv
      exact ⟨xs ++ [k], .further (ht.trans (another_of_ok hk)) (.broken ht')⟩
    | ok v s₂ => cases (bind_of_ok hv).symm.trans h

end Turns

/-- Pairs up to the end mark are read by the loop. The induction is along the walk. -/
theorem loop_stops (done : List (Bytes × Bytes)) (s : Scanner) :
    ∃ ys, loop.Stops (Bytes.flattenPairs done.reverse) s ys
      (answer ((do return Bytes.flattenPairs (← untilEndInto pair pair_eager done)) s)) := by
  have heven (ps : List (Bytes × Bytes)) : (Bytes.flattenPairs ps).length % 2 = 0 := by
    rw [Bytes.length_flattenPairs, Nat.mul_mod_right]
  rw [answer_bind]
  fun_induction untilEndInto pair pair_eager done s with
  | case1 done s e s' hp =>
    exact ⟨_, .broken ((congrFun (if_pos (heven _)) s).trans (bind_of_error hp))⟩
  | case2 done s s' hp =>
    obtain ⟨rfl, -⟩ := peek_eq_ok_iff.mp hp
    exact ⟨_, .ended (loop_turn (heven _) hp)⟩
  | case3 done s b s' hp hb e s'' hi =>
    obtain ⟨rfl, -⟩ := peek_eq_ok_iff.mp hp
    exact loop_stops_of_pair_error (heven _) hp hb hi
  | case4 done s b s' hp hb p s'' hi ih =>
    obtain ⟨rfl, -⟩ := peek_eq_ok_iff.mp hp
    obtain ⟨ys, hs⟩ := ih
    rw [List.reverse_cons, Bytes.flattenPairs, List.flatMap_append] at hs
    exact ⟨ys, loop_stops_of_pair (heven _) hp hb hi hs⟩

theorem pairs_opens : Opens opening (do return Bytes.flattenPairs (← pairs)) := by
  simp only [pairs, bind_assoc]
  exact .bind _ fun _ => .loop (loop_stops [])

theorem decode_eq_answer (data : Bytes) : decode data =
    Scan.decode "zipmap" (do return Bytes.flattenPairs (← pairs)) data := by
  have hr := answer_bind pairs (fun ps => return Bytes.flattenPairs ps)
    (Scanner.start "zipmap" data)
  refine Eq.trans ?_ hr.symm
  rw [decode, Scan.decode]
  cases pairs (Scanner.start "zipmap" data) <;> rfl

/-- A key takes a byte for its length. -/
theorem key_takes : Takes 1 key := by
  refine .of_recognises key_recognises ?_
  rintro k bs ⟨len, hlen, rfl⟩
  have hpos := hlen.length_pos
  rw [List.length_append]
  omega

/-- A value takes a byte for its length, and one for the number of unused bytes. -/
theorem value_takes : Takes 2 value := by
  refine .of_recognises value_recognises ?_
  rintro v bs ⟨len, unused, free, hlen, -, rfl⟩
  have hpos := hlen.length_pos
  rw [List.length_append, List.length_cons]
  omega

/-- A key takes one byte and a value two. -/
theorem loop_needs : loop.Needs (fun k => 3 * (k / 2) + k % 2) 1 where
  zero := rfl
  turn k := by
    simp only [loop]
    split
    · rw [show 3 * ((k + 1) / 2) + (k + 1) % 2 - (3 * (k / 2) + k % 2) = 1 by omega]
      refine .peek (fun b => ?_) (Nat.le_max_left 1 0)
      split
      · exact .finish (.pure ())
      · exact .item key_takes
    · rw [show 3 * ((k + 1) / 2) + (k + 1) % 2 - (3 * (k / 2) + k % 2) = 2 by omega]
      exact .item value_takes

theorem opening_needs : OpensNeeding 1 (fun k => 3 * (k / 2) + k % 2) 1 opening :=
  .bind .byte fun _ => .loop loop_needs

end Zipmap

/-! ### All decoders -/

/-- The decoder of a container stops on the given bytes with the given answer: a list, or an error
about the bytes. A list of `n` elements needs `returned n` bytes, and as soon as elements are
complete, `n` of them need `complete n` bytes, whatever the answer is. -/
structure StopsInTime (container : String) (opening : Scan (Loop Bytes)) (data : Bytes)
    (answer : Except PackedError (List Bytes)) (returned complete : Nat → Nat) : Prop where
  stops : ∃ xs, Stops opening (Scanner.start container data) xs answer
  returned : ∀ xs, answer = .ok xs → returned xs.length ≤ data.length
  refused : ∀ e, answer = .error e → e.Within container data.length
  complete : ∀ xs, Stops opening (Scanner.start container data) xs answer → xs ≠ [] →
    complete xs.length ≤ data.length

/-- A computation that is a loop stops in time, since every turn takes its bytes. -/
theorem StopsInTime.of_opens {container : String} {opening : Scan (Loop Bytes)}
    {r : Scan (List Bytes)} {data : Bytes} {header rest : Nat} {need : Nat → Nat}
    (hr : Opens opening r) (hneeds : OpensNeeding header need rest opening)
    (hwithin : StaysWithin container data.length r) {returned complete : Nat → Nat}
    (hreturned : ∀ n, returned n ≤ header + need n + rest)
    (hcomplete : ∀ n, complete n ≤ header + need n) :
    StopsInTime container opening data (Scan.decode container r data) returned complete where
  stops := hr _
  returned xs hxs := by
    obtain ⟨ys, hs⟩ := hr (Scanner.start container data)
    obtain ⟨rfl, hle⟩ := (hs.room hneeds).2 xs hxs
    exact Nat.le_trans (hreturned _) hle
  refused _ he := hwithin.decode he
  complete xs hs hne := Nat.le_trans (hcomplete _) ((hs.room hneeds).1 hne)

/-- **Packed containers are decoded in time.** On all bytes, whatever count they declare and whether
or not there is an end mark, a decoder stops, with a list or with an error about the bytes, and
neither the list nor what is complete when it stops has more elements than the bytes have room
for. -/
theorem decoders_stop (cutoff : Int) (data : Bytes) :
    StopsInTime "ziplist" (Ziplist.opening cutoff) data (Ziplist.decode cutoff data)
        (10 + 2 * ·) (10 + 2 * ·) ∧
      StopsInTime "listpack" Listpack.opening data (Listpack.decode data)
        (7 + 2 * ·) (6 + 2 * ·) ∧
      StopsInTime "intset" Intset.opening data (Intset.decode data) (8 + 2 * ·) (8 + 2 * ·) ∧
      StopsInTime "zipmap" Zipmap.opening data (Zipmap.decode data)
        (fun n => 2 + 3 * (n / 2)) (fun n => 1 + 3 * (n / 2) + n % 2) := by
  refine ⟨?ziplist, ?listpack, ?intset, ?zipmap⟩
  case ziplist =>
    exact .of_opens (Ziplist.elements_opens cutoff) (Ziplist.opening_needs cutoff)
      (Ziplist.elements_within cutoff) (fun n => by omega) fun n => by omega
  case listpack =>
    exact .of_opens Listpack.elements_opens Listpack.opening_needs Listpack.elements_within
      (fun n => by omega) fun n => by omega
  case intset =>
    exact .of_opens Intset.elements_opens Intset.opening_needs Intset.elements_within
      (fun n => by omega) fun n => by omega
  case zipmap =>
    rw [Zipmap.decode_eq_answer]
    exact .of_opens Zipmap.pairs_opens Zipmap.opening_needs (Zipmap.pairs_within.map _)
      (fun n => by omega) fun n => by omega

/-- The greatest count of an intset, with the bytes of one member. -/
example : Intset.decode [2, 0, 0, 0, 0xFF, 0xFF, 0xFF, 0xFF, 1, 0] =
    .error (.cutShort "intset" 2 10 10) :=
  rfl

/-- The end mark of a listpack is looked for only behind the elements, so that eight bytes without
it complete an element, although a list of one element needs nine. -/
theorem Listpack.not_stopsInTime : ¬ StopsInTime "listpack" Listpack.opening
    [0, 0, 0, 0, 0xFF, 0xFF, 0, 1] (Listpack.decode [0, 0, 0, 0, 0xFF, 0xFF, 0, 1])
    (7 + 2 * ·) (7 + 2 * ·) := by
  intro h
  have hs : Stops Listpack.opening (Scanner.start "listpack" [0, 0, 0, 0, 0xFF, 0xFF, 0, 1])
      [[0x30]] (.error (.cutShort "listpack" 1 8 8)) :=
    .opened rfl (.further rfl (.broken rfl))
  obtain ⟨xs, hs'⟩ := h.stops
  obtain ⟨rfl, -⟩ := hs.unique hs'
  exact absurd (h.complete _ hs' nofun) (by decide)

end RedisDump
