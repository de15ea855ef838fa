import RedisDump.Packed
import RedisDump.Proofs.Outcome.Basic

/-!
# Why packed values cannot be decoded

A decoder of a packed container moves inside the bytes that were captured, and nowhere else: an
element that it finds cut short would have ended behind them, and everything else that it complains
of lies inside them or at their end (`PackedError.Within`). So every reason why a packed value
cannot be decoded is one about its own bytes, or about a node in no known form
(`Packed.flawed_of_decode`).
-/

namespace RedisDump

/-- An error about a container of `size` bytes: an element that starts inside it and would end
behind it, or something wrong inside it or at its end. -/
inductive PackedError.Within (container : String) (size : Nat) : PackedError → Prop where
  | cutShort {n offset : Nat} : offset ≤ size → size < offset + n →
    Within container size (.cutShort container n offset size)
  | invalid {offset : Nat} (flaw : String) : offset ≤ size →
    Within container size (.invalid container offset flaw)

/-- A place in a container of `size` bytes. -/
structure Scanner.Within (container : String) (size : Nat) (s : Scanner) : Prop where
  container : s.container = container
  size : s.offset + s.rest.length = size

theorem Scanner.within_start (container : String) (data : Bytes) :
    (Scanner.start container data).Within container data.length :=
  ⟨rfl, Nat.zero_add _⟩

namespace Scan

/-! ### Scanners -/

/-- A scanner that stays inside a container of `size` bytes, and whose errors are about it. -/
def StaysWithin {α : Type} (container : String) (size : Nat) (r : Scan α) : Prop :=
  Ensures (Scanner.Within container size) Anything (PackedError.Within container size) r

variable {α : Type} {container : String} {size : Nat}

theorem cutShort_within {s : Scanner} {n : Nat} (hs : s.Within container size)
    (hn : s.rest.length < n) : (s.cutShort n).Within container size := by
  obtain ⟨rfl, rfl⟩ := hs
  exact .cutShort (Nat.le_add_right _ _) (by omega)

theorem byte_within : StaysWithin container size byte := by
  intro s hs
  unfold byte
  split
  · rename_i hr
    exact .error (cutShort_within hs (by simp [hr])) hs
  · rename_i b rest hr
    refine .ok trivial ⟨hs.container, ?_⟩
    have := hs.size
    simp only [hr, List.length_cons] at this ⊢
    omega

theorem peek_within : StaysWithin container size peek := by
  intro s hs
  unfold peek
  split
  · rename_i hr
    exact .error (cutShort_within hs (by simp [hr])) hs
  · exact .ok trivial hs

theorem take_within (n : Nat) : StaysWithin container size (take n) := by
  intro s hs
  unfold take
  dsimp only
  rw [List.length_take]
  split
  · exact .error (cutShort_within hs (by omega)) hs
  · refine .ok trivial ⟨hs.container, ?_⟩
    have := hs.size
    simp only [List.length_drop]
    omega

theorem fail_within (flaw : String) : StaysWithin container size (fail flaw : Scan α) := by
  rintro s ⟨rfl, rfl⟩
  exact .error (.invalid flaw (Nat.le_add_right _ _)) ⟨rfl, rfl⟩

theorem pure_within (a : α) : StaysWithin container size (Pure.pure a) :=
  .pure trivial

namespace StaysWithin

theorem bind {β : Type} {r : Scan α} {f : α → Scan β} (hr : StaysWithin container size r)
    (hf : ∀ a, StaysWithin container size (f a)) : StaysWithin container size (r >>= f) :=
  Ensures.bind hr fun a _ => hf a

theorem map {β : Type} {r : Scan α} (hr : StaysWithin container size r) (f : α → β) :
    StaysWithin container size (r >>= fun a => Pure.pure (f a)) :=
  hr.bind fun _ => pure_within _

theorem collect {item : Scan α} (h : StaysWithin container size item) (n : Nat) :
    StaysWithin container size (collect (fun _ => item) n) :=
  (Ensures.collect_length (fun _ => h) n).returns fun _ _ => trivial

theorem untilEndInto {item : Scan α} (h : StaysWithin container size item)
    (eager : Eager Scanner.remaining item) (done : List α) :
    StaysWithin container size (untilEndInto item eager done) := by
  intro s hs
  fun_induction Scan.untilEndInto item eager done s with
  | case1 done s e s' hp =>
    have hend := peek_within s hs
    rw [hp] at hend
    exact .error hend.of_error.1 hend.of_error.2
  | case2 done s s' hp => exact .ok trivial hs
  | case3 done s b s' hp hb e s'' hi =>
    have hend := h s hs
    rw [hi] at hend
    exact .error hend.of_error.1 hend.of_error.2
  | case4 done s b s' hp hb a s'' hi ih =>
    have hend := h s hs
    rw [hi] at hend
    exact ih hend.of_ok.2

/-- The elements up to the end mark. -/
theorem untilEnd {item : Scan α} (h : StaysWithin container size item)
    (eager : Eager Scanner.remaining item) :
    StaysWithin container size (untilEnd item eager) :=
  h.untilEndInto eager []

/-- A container that cannot be decoded has an error inside it. -/
theorem decode {r : Scan α} {data : Bytes} (h : StaysWithin container data.length r)
    {e : PackedError} (hd : Scan.decode container r data = .error e) :
    e.Within container data.length := by
  have hend := h _ (Scanner.within_start container data)
  unfold Scan.decode at hd
  split at hd
  · cases hd
  · rename_i he
    cases hd
    rw [he] at hend
    exact hend.of_error.1

theorem exists_error {r : Scan α} {data : Bytes} (h : StaysWithin container data.length r)
    (hne : ∀ a, Scan.decode container r data ≠ .ok a) :
    ∃ e, Scan.decode container r data = .error e ∧ e.Within container data.length := by
  cases hd : Scan.decode container r data with
  | error e => exact ⟨e, rfl, h.decode hd⟩
  | ok a => exact absurd hd (hne a)

end StaysWithin

theorem skip_within (n : Nat) : StaysWithin container size (skip n) :=
  (take_within n).map _

theorem littleEndian_within (width : Nat) : StaysWithin container size (littleEndian width) :=
  (take_within width).map _

theorem bigEndian_within (width : Nat) : StaysWithin container size (bigEndian width) :=
  (take_within width).map _

theorem signed_within (width : Nat) : StaysWithin container size (signed width) :=
  (take_within width).map _

end Scan

open Scan

variable {container : String} {size : Nat}

/-! ### Ziplists -/

namespace Ziplist

theorem previousLength_within (cutoff : Int) :
    StaysWithin container size (previousLength cutoff) := by
  refine byte_within.bind fun _ => ?_
  split
  · exact skip_within 4
  · exact pure_within _

theorem integer_within (encoding : UInt8) : StaysWithin container size (integer encoding) := by
  unfold integer
  split
  · exact signed_within _
  · split
    · exact pure_within _
    · exact fail_within _

theorem element_within (encoding : UInt8) : StaysWithin container size (element encoding) := by
  unfold element
  split
  · exact take_within _
  · exact byte_within.bind fun _ => take_within _
  · exact (bigEndian_within 4).bind fun _ => take_within _
  · exact (integer_within encoding).map _

theorem entry_within (cutoff : Int) : StaysWithin container size (entry cutoff) :=
  (previousLength_within cutoff).bind fun _ => byte_within.bind element_within

theorem elements_within (cutoff : Int) : StaysWithin container size (elements cutoff) := by
  refine (skip_within _).bind fun _ => (littleEndian_within 2).bind fun _ => ?_
  split
  · exact (entry_within cutoff).collect _
  · exact (entry_within cutoff).untilEnd _

end Ziplist

/-! ### Listpacks -/

namespace Listpack

theorem stringBody_within (header length : Nat) :
    StaysWithin container size (stringBody header length) :=
  (take_within _).bind fun _ => (skip_within _).map _

theorem integerBody_within (bits raw : Nat) : StaysWithin container size (integerBody bits raw) :=
  (skip_within 1).map _

theorem wideElement_within (b : UInt8) : StaysWithin container size (wideElement b) := by
  unfold wideElement
  split
  · exact (littleEndian_within 4).bind fun _ => stringBody_within _ _
  · split
    · exact (littleEndian_within _).bind fun _ => integerBody_within _ _
    · exact fail_within _

theorem elementFrom_within (b : UInt8) : StaysWithin container size (elementFrom b) := by
  unfold elementFrom
  dsimp only
  split
  · exact (skip_within 1).map _
  · split
    · exact stringBody_within _ _
    · split
      · exact byte_within.bind fun _ => integerBody_within _ _
      · split
        · exact byte_within.bind fun _ => stringBody_within _ _
        · exact wideElement_within b

theorem element_within : StaysWithin container size element :=
  byte_within.bind elementFrom_within

theorem finish_within : StaysWithin container size finish := by
  refine byte_within.bind fun _ => ?_
  split
  · exact pure_within _
  · exact fail_within _

theorem body_within : StaysWithin container size body := by
  refine (skip_within _).bind fun _ => (littleEndian_within 2).bind fun _ => ?_
  split
  · exact element_within.collect _
  · exact element_within.untilEnd _

theorem elements_within : StaysWithin container size elements :=
  body_within.bind fun _ => finish_within.map _

end Listpack

/-! ### Intsets and zipmaps -/

theorem Intset.elements_within : StaysWithin container size Intset.elements := by
  refine (littleEndian_within 4).bind fun width => (littleEndian_within 4).bind fun _ => ?_
  split
  · exact StaysWithin.collect ((signed_within width).map _) _
  · exact fail_within _

namespace Zipmap

theorem length_within : StaysWithin container size length := by
  refine byte_within.bind fun _ => ?_
  dsimp only
  split
  · exact pure_within _
  · split
    · exact bigEndian_within 4
    · exact fail_within _

theorem key_within : StaysWithin container size key :=
  length_within.bind fun _ => take_within _

theorem value_within : StaysWithin container size value :=
  length_within.bind fun _ => byte_within.bind fun _ => (take_within _).bind fun _ =>
    (skip_within _).map _

theorem pair_within : StaysWithin container size pair :=
  key_within.bind fun _ => value_within.map _

theorem pairs_within : StaysWithin container size pairs :=
  byte_within.bind fun _ => pair_within.untilEnd _

end Zipmap

/-! ### Packed values -/

/-- The first element that an operation fails on decides the failure of the whole. -/
theorem exists_of_mapM_error {α β ε : Type} {f : α → Except ε β} {as : List α} {e : ε}
    (h : as.mapM f = .error e) : ∃ a ∈ as, f a = .error e := by
  induction as with
  | nil => cases h
  | cons a as ih =>
    rw [List.mapM_cons] at h
    cases ha : f a with
    | error e' =>
      rw [ha] at h
      cases h
      exact ⟨a, List.mem_cons_self, ha⟩
    | ok b =>
      cases has : as.mapM f with
      | error e' =>
        rw [ha, has] at h
        cases h
        obtain ⟨a', hmem, ha'⟩ := ih has
        exact ⟨a', List.mem_cons_of_mem _ hmem, ha'⟩
      | ok bs =>
        rw [ha, has] at h
        cases h

namespace Packed

/-- The containers of a packed value, with their names. -/
def containers : Packed → List (String × Bytes)
  | zipmap data => [("zipmap", data)]
  | ziplist _ data | scoredZiplist _ data => [("ziplist", data)]
  | intset data => [("intset", data)]
  | listpack data | scoredListpack data => [("listpack", data)]
  | quicklist _ ziplists => ziplists.map fun data => ("ziplist", data)
  | quicklist2 nodes =>
    (nodes.filter fun n => n.1 = Quicklist.packedForm).map fun n => ("listpack", n.2)

/-- The forms of the nodes of a packed value that are not known. -/
def unknownForms : Packed → List Int
  | quicklist2 nodes =>
    (nodes.map Prod.fst).filter fun form =>
      form ≠ Quicklist.packedForm ∧ form ≠ Quicklist.plainForm
  | _ => []

/-- An error that is about the bytes of a packed value, or about a node in no known form. -/
inductive Flawed (packed : Packed) : PackedError → Prop where
  | container {c : String × Bytes} {e : PackedError} : c ∈ packed.containers →
    e.Within c.1 c.2.length → Flawed packed e
  | form {form : Int} : form ∈ packed.unknownForms → Flawed packed (.unknownNode form)

theorem error_of_map_error {α β ε : Type} {x : Except ε α} {f : α → β} {e : ε}
    (h : x.map f = .error e) : x = .error e := by
  cases x with
  | error e' =>
    cases h
    rfl
  | ok a => cases h

/-- A node that cannot be decoded is a listpack, or in no known form. -/
theorem flawed_of_decodeNode {nodes : List Quicklist.Node} {node : Quicklist.Node}
    {e : PackedError} (hmem : node ∈ nodes) (h : Quicklist.decodeNode node = .error e) :
    (quicklist2 nodes).Flawed e := by
  unfold Quicklist.decodeNode at h
  split at h
  · rename_i hform
    refine .container (c := ("listpack", node.2)) ?_ (Listpack.elements_within.decode h)
    exact List.mem_map.mpr ⟨node, List.mem_filter.mpr ⟨hmem, by simpa using hform⟩, rfl⟩
  · split at h
    · cases h
    · rename_i hpacked hplain
      cases h
      refine .form (List.mem_filter.mpr ⟨List.mem_map_of_mem hmem, ?_⟩)
      simpa using ⟨hpacked, hplain⟩

/-- **Why a packed value cannot be decoded.** -/
theorem flawed_of_decode {packed : Packed} {e : PackedError} (h : packed.decode = .error e) :
    packed.Flawed e := by
  cases packed with
  | zipmap data =>
    exact .container (List.mem_singleton_self _)
      (Zipmap.pairs_within.decode (error_of_map_error h))
  | ziplist cutoff data =>
    exact .container (List.mem_singleton_self _) ((Ziplist.elements_within cutoff).decode h)
  | scoredZiplist cutoff data =>
    exact .container (List.mem_singleton_self _)
      ((Ziplist.elements_within cutoff).decode (error_of_map_error h))
  | intset data => exact .container (List.mem_singleton_self _) (Intset.elements_within.decode h)
  | listpack data =>
    exact .container (List.mem_singleton_self _) (Listpack.elements_within.decode h)
  | scoredListpack data =>
    exact .container (List.mem_singleton_self _)
      (Listpack.elements_within.decode (error_of_map_error h))
  | quicklist cutoff ziplists =>
    obtain ⟨data, hmem, hd⟩ := exists_of_mapM_error (error_of_map_error h)
    exact .container (List.mem_map_of_mem hmem) ((Ziplist.elements_within cutoff).decode hd)
  | quicklist2 nodes =>
    obtain ⟨node, hmem, hd⟩ := exists_of_mapM_error (error_of_map_error h)
    exact flawed_of_decodeNode hmem hd

end Packed

end RedisDump
