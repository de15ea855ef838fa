import Mathlib.Data.List.Forall2
import RedisDump.Proofs.Deferral
import RedisDump.Proofs.Inquiry
import RedisDump.Proofs.Pairing
import RedisDump.Proofs.Outcome.Sessions
import RedisDump.Proofs.Wire.Snapshot

/-!
# Lists split into nodes

The elements of a list that is split into nodes are those of its nodes, each decoded on its own, one
after the other; and the first node that cannot be decoded decides that there are none
(`Quicklist.Concatenates`). So it does not matter how a list is split, nor whether there are empty
nodes. A key that holds such a list is answered from all of its elements or, at every time, with the
error of that node (`Deferred.AllOrNone`); both together are `Session.nodes_concatenated`.
-/

namespace RedisDump

namespace Quicklist

variable {α : Type} {node : α → Except PackedError (List Bytes)}
  {decodeAll : List α → Except PackedError (List Bytes)}

/-! ### Nodes in turn -/

/-- The nodes of a list are decoded one after the other. -/
structure Walks (node : α → Except PackedError (List Bytes))
    (decodeAll : List α → Except PackedError (List Bytes)) : Prop where
  nil : decodeAll [] = .ok []
  cons : ∀ n ns, decodeAll (n :: ns) = do return (← node n) ++ (← decodeAll ns)

theorem walks_of_mapM (node : α → Except PackedError (List Bytes)) :
    Walks node fun ns => do return (← ns.mapM node).flatten where
  nil := rfl
  cons n ns := by
    simp only [List.mapM_cons]
    cases node n with
    | error e => rfl
    | ok xs => cases ns.mapM node <;> rfl

namespace Walks

variable (h : Walks node decodeAll)

include h

theorem cons_of_ok {n : α} {xs : List Bytes} (hn : node n = .ok xs) (ns : List α) :
    decodeAll (n :: ns) = (decodeAll ns).map (xs ++ ·) := by
  rw [h.cons, hn]
  cases decodeAll ns <;> rfl

theorem cons_of_error {n : α} {e : PackedError} (hn : node n = .error e) (ns : List α) :
    decodeAll (n :: ns) = .error e := by
  rw [h.cons, hn]
  rfl

theorem append (as bs : List α) :
    decodeAll (as ++ bs) = do return (← decodeAll as) ++ (← decodeAll bs) := by
  induction as with
  | nil =>
    rw [List.nil_append, h.nil]
    cases decodeAll bs <;> rfl
  | cons a as ih =>
    rw [List.cons_append]
    cases hn : node a with
    | error e =>
      rw [h.cons_of_error hn, h.cons_of_error hn]
      rfl
    | ok xs =>
      rw [h.cons_of_ok hn, h.cons_of_ok hn, ih]
      cases decodeAll as with
      | error e => rfl
      | ok ys =>
        cases decodeAll bs with
        | error e => rfl
        | ok zs => exact congrArg Except.ok (List.append_assoc xs ys zs).symm

theorem ok_iff {ns : List α} {xs : List Bytes} : decodeAll ns = .ok xs ↔
    ∃ parts, List.Forall₂ (fun n part => node n = .ok part) ns parts ∧ xs = parts.flatten := by
  induction ns generalizing xs with
  | nil =>
    rw [h.nil]
    constructor
    · rintro ⟨⟩
      exact ⟨[], .nil, rfl⟩
    · rintro ⟨_, ⟨⟩, rfl⟩
      rfl
  | cons n ns ih =>
    constructor
    · intro hx
      cases hn : node n with
      | error e =>
        rw [h.cons_of_error hn] at hx
        cases hx
      | ok part =>
        rw [h.cons_of_ok hn] at hx
        cases hrest : decodeAll ns with
        | error e =>
          rw [hrest] at hx
          cases hx
        | ok ys =>
          rw [hrest] at hx
          cases hx
          obtain ⟨parts, hparts, rfl⟩ := ih.mp hrest
          exact ⟨part :: parts, .cons hn hparts, rfl⟩
    · rintro ⟨_, hparts, rfl⟩
      cases hparts with
      | cons hn hparts =>
        rw [h.cons_of_ok hn, ih.mpr ⟨_, hparts, rfl⟩]
        rfl

theorem error_iff {ns : List α} {e : PackedError} : decodeAll ns = .error e ↔
    ∃ before n after, ns = before ++ n :: after ∧ (∀ m ∈ before, ∃ xs, node m = .ok xs) ∧
      node n = .error e := by
  -- the first node decides where the list is split: there if it fails, and further on if not
  induction ns with
  | nil =>
    rw [h.nil]
    constructor
    · rintro ⟨⟩
    · rintro ⟨before, n, after, hsplit, -⟩
      cases before <;> cases hsplit
  | cons a as ih =>
    cases hn : node a with
    | error e' =>
      rw [h.cons_of_error hn]
      constructor
      · rintro ⟨⟩
        exact ⟨[], a, as, rfl, nofun, hn⟩
      · rintro ⟨before, n, after, hsplit, hbefore, he⟩
        cases before with
        | nil =>
          cases hsplit
          rw [← hn, he]
        | cons b before =>
          cases hsplit
          obtain ⟨xs, hb⟩ := hbefore a List.mem_cons_self
          rw [hn] at hb
          cases hb
    | ok xs =>
      rw [h.cons_of_ok hn]
      have hrest : (decodeAll as).map (xs ++ ·) = .error e ↔ decodeAll as = .error e := by
        cases decodeAll as <;> simp [Except.map]
      rw [hrest, ih]
      constructor
      · rintro ⟨before, n, after, rfl, hbefore, he⟩
        refine ⟨a :: before, n, after, rfl, ?_, he⟩
        rintro m (_ | ⟨_, hm⟩)
        · exact ⟨xs, hn⟩
        · exact hbefore m hm
      · rintro ⟨before, n, after, hsplit, hbefore, he⟩
        cases before with
        | nil =>
          cases hsplit
          rw [hn] at he
          cases he
        | cons b before =>
          cases hsplit
          exact ⟨before, n, after, rfl, fun m hm => hbefore m (List.mem_cons_of_mem _ hm), he⟩

end Walks

/-- A list of nodes is decoded to what its nodes are decoded to. -/
structure Concatenates (node : α → Except PackedError (List Bytes))
    (decodeAll : List α → Except PackedError (List Bytes)) : Prop where
  /-- Decoding turns lists behind each other into their elements behind each other, and fails for
  the first list that fails. -/
  append : ∀ as bs, decodeAll (as ++ bs) = do return (← decodeAll as) ++ (← decodeAll bs)
  single : ∀ n, decodeAll [n] = node n
  /-- A success is a success of all nodes. -/
  ok_iff : ∀ ns xs, decodeAll ns = .ok xs ↔
    ∃ parts, List.Forall₂ (fun n part => node n = .ok part) ns parts ∧ xs = parts.flatten
  /-- A failure is that of the first node that fails. -/
  error_iff : ∀ ns e, decodeAll ns = .error e ↔ ∃ before n after, ns = before ++ n :: after ∧
    (∀ m ∈ before, ∃ xs, node m = .ok xs) ∧ node n = .error e
  /-- The elements may be split over nodes in any way. -/
  resplit : ∀ ns ms parts parts', List.Forall₂ (fun n part => node n = .ok part) ns parts →
    List.Forall₂ (fun n part => node n = .ok part) ms parts' → parts.flatten = parts'.flatten →
      decodeAll ns = decodeAll ms
  /-- A node without elements may stand anywhere. -/
  empty : ∀ as n bs, node n = .ok [] → decodeAll (as ++ n :: bs) = decodeAll (as ++ bs)

theorem Walks.concatenates (h : Walks node decodeAll) : Concatenates node decodeAll where
  append := h.append
  single n := by
    rw [h.cons, h.nil]
    cases node n with
    | error e => rfl
    | ok xs => exact congrArg Except.ok (List.append_nil xs)
  ok_iff _ _ := h.ok_iff
  error_iff _ _ := h.error_iff
  resplit ns ms parts parts' hns hms hsame := by
    rw [h.ok_iff.mpr ⟨parts, hns, rfl⟩, h.ok_iff.mpr ⟨parts', hms, hsame⟩]
  empty as n bs hn := by
    have hnone : decodeAll (n :: bs) = decodeAll bs := by
      rw [h.cons_of_ok hn]
      cases decodeAll bs <;> rfl
    rw [h.append, h.append, hnone]

theorem decode_concatenates (cutoff : Int) : Concatenates (Ziplist.decode cutoff) (decode cutoff) :=
  Walks.concatenates (walks_of_mapM _)

theorem decodeNodes_concatenates : Concatenates decodeNode decodeNodes :=
  Walks.concatenates (walks_of_mapM _)

/-- What the nodes of the second form are decoded to. -/
structure NodesOfForms : Prop where
  concatenates : Concatenates decodeNode decodeNodes
  packed : ∀ data, decodeNode (packedForm, data) = Listpack.decode data
  plain : ∀ data, decodeNode (plainForm, data) = .ok [data]
  /-- A node in another form is refused, whatever stands before it. -/
  unknown : ∀ form data before after xs, form ≠ packedForm → form ≠ plainForm →
    decodeNodes before = .ok xs →
      decodeNodes (before ++ (form, data) :: after) = .error (.unknownNode form)

theorem nodesOfForms : NodesOfForms where
  concatenates := decodeNodes_concatenates
  packed _ := if_pos rfl
  plain _ := rfl
  unknown form data before after xs hpacked hplain hbefore := by
    have hnode : decodeNode (form, data) = .error (.unknownNode form) := by
      rw [decodeNode, if_neg hpacked, if_neg hplain]
    have hw : Walks decodeNode decodeNodes := walks_of_mapM _
    rw [hw.append, hbefore, hw.cons_of_error hnode]
    rfl

end Quicklist

/-! ### Lists that are known as a whole -/

namespace Deferred

/-- A list that is decoded to `answer`: to all of its elements or, if that is an error, to none. -/
structure AllOrNone (answer : Except PackedError (List Bytes)) (d : Deferred Packed) : Prop where
  force : d.force.1 = answer
  /-- The elements that are known are all. -/
  known : ∀ c xs n, d = realized c xs n → answer = .ok xs
  /-- Questions are answered as by the list of all elements. -/
  whole : ∀ xs, answer = .ok xs → ∀ q : Step, q.isAside = false →
    (d.step q).1 = ((ofElements xs).step q).1
  /-- Where there are none, questions that need them have no answer. -/
  none : ∀ e, answer = .error e → ∀ q : Step, q.needsElements = true →
    (d.step q).1 = .error (.decoding e)

/-- What was captured is decoded as a whole, however often that has been tried. -/
theorem SameAnswer.allOrNone {d : Deferred Packed} {packed : Packed}
    (h : d.SameAnswer (.capture packed)) : d.AllOrNone packed.decode := by
  have hforce := h.of_capture.2
  refine ⟨hforce, ?_, fun xs hxs q haside => ?_, fun e he q hq => ?_⟩
  · rintro c xs n rfl
    exact hforce.symm
  · cases hq : q.needsElements with
    | false => exact step_fst_of_not_needsElements hq haside d _
    | true =>
      obtain ⟨f, -, hf⟩ := step_of_needsElements (δ := Packed) hq
      rw [hf, hf, withElements_fst, withElements_fst, hforce, hxs]
      rfl
  · obtain ⟨f, -, hf⟩ := step_of_needsElements (δ := Packed) hq
    rw [hf, withElements_fst, hforce, he, ← (plain_packed e).failure q]
    rfl

end Deferred

/-- What the nodes that a key holds are decoded to. -/
def Content.nodesAnswer? (cutoff : Int) : Content → Option (Except PackedError (List Bytes))
  | quicklist ziplists => some (Quicklist.decode cutoff ziplists)
  | quicklist2 nodes => some (Quicklist.decodeNodes (nodes.map fun n => (Int.ofNat n.1, n.2)))
  | string _ | list _ | set _ | sortedSet _ | sortedSet2 _ | hash _ | container .. => none

theorem Content.allOrNone {c : Content} {cutoff : Int} {answer : Except PackedError (List Bytes)}
    (hc : c.nodesAnswer? cutoff = some answer) {d : Deferred Packed}
    (h : d.SameAnswer (c.values cutoff)) : d.AllOrNone answer := by
  cases c with
  | quicklist ziplists =>
    cases hc
    exact Deferred.SameAnswer.allOrNone h
  | quicklist2 nodes =>
    cases hc
    exact Deferred.SameAnswer.allOrNone h
  | string | list | set | sortedSet | sortedSet2 | hash | container => cases hc

/-- A key of a list that is split into nodes holds nodes. -/
theorem Content.exists_nodesAnswer {c : Content} (cutoff : Int)
    (h : c.kind = .listQuicklist ∨ c.kind = .listQuicklist2) :
    ∃ answer, c.nodesAnswer? cutoff = some answer := by
  cases c with
  | quicklist | quicklist2 => exact ⟨_, rfl⟩
  | string | list | set | sortedSet | sortedSet2 | hash => rcases h with h | h <;> cases h
  | container form => cases form <;> rcases h with h | h <;> cases h

namespace Entry

/-- What goes on to resemble a key is that key, decoded to the same answer. -/
theorem Resembles.exists_values {e : Entry Packed} {fields : KeyFields} {values : Deferred Packed}
    (h : Resembles e (.keyValue fields values)) :
    ∃ d, e = .keyValue fields d ∧ d.SameAnswer values := by
  cases h with
  | refl => exact ⟨values, rfl, .refl values⟩
  | keyValue hd => exact ⟨_, rfl, hd⟩

theorem Resembles.of_keyValue {fields fields₀ : KeyFields} {d d₀ : Deferred Packed}
    (h : Resembles (.keyValue fields d) (.keyValue fields₀ d₀)) :
    fields = fields₀ ∧ d.SameAnswer d₀ := by
  obtain ⟨d', hd, hsame⟩ := h.exists_values
  cases hd
  exact ⟨rfl, hsame⟩

theorem Genuine.nodes {p : Profile} {fields : KeyFields} {d : Deferred Packed}
    (h : Genuine p (.keyValue fields d))
    (hkind : fields.kind = .listQuicklist ∨ fields.kind = .listQuicklist2) :
    ∃ (version : Nat) (c : Content) (answer : Except PackedError (List Bytes)),
      c.kind = fields.kind ∧ c.nodesAnswer? (p.cutoffFor version) = some answer ∧
        d.AllOrNone answer := by
  obtain ⟨version, e₀, -, -, hread, hr⟩ := h
  cases hread with
  | keyValue c hc =>
    obtain ⟨hfields, hsame⟩ := hr.of_keyValue
    rw [hfields, ← hc] at hkind
    obtain ⟨answer, hanswer⟩ := c.exists_nodesAnswer (p.cutoffFor version) hkind
    rw [← hfields] at hc
    exact ⟨version, c, answer, hc, hanswer, c.allOrNone hanswer hsame⟩
  | eof | selectDb | resizeDb | aux => cases hr

end Entry

namespace Session

variable {p : Profile} {version n : Nat} {s : Session}

/-- A key that is read is found in its place at any later time, decoded to the same answer. -/
theorem exists_entry_run_next {bs rest : Bytes} {fields : KeyFields} {values : Deferred Packed}
    (hr : RecordReads bs (ReadRecord.entry p version) {} (.keyValue fields values) {})
    (hs : Before p version (bs ++ rest) n s) (ops : List Step) :
    ∃ d, (s.next.2.run ops).entries[s.entries.size]? = some (.keyValue fields d) ∧
      d.SameAnswer values := by
  obtain ⟨intake, hnext, -⟩ := next_of_reads hr hs
  have hentries : s.next.2.entries = s.entries.push (.keyValue fields values) := by
    rw [hnext, entries_deliver, entries_advance]
  have hg := grown_run s.next.2 ops
  have hold : s.entries.size < s.next.2.entries.size := by
    rw [hentries, Array.size_push]
    exact Nat.lt_succ_self _
  have hnew := Nat.lt_of_lt_of_le hold hg.size
  have hresembles := hg.resembles _ hold hnew
  have hlast : s.next.2.entries[s.entries.size] = .keyValue fields values := by
    simp only [hentries, Array.getElem_push_eq]
  rw [hlast] at hresembles
  obtain ⟨d, hd, hsame⟩ := hresembles.exists_values
  exact ⟨d, by rw [Array.getElem?_eq_getElem hnew, hd], hsame⟩

/-- **A list split into nodes is decoded as a whole or not at all.** Decoding turns nodes behind
each other into their elements behind each other, and fails with the first node that fails. So is
every key answered that holds such a list, whatever the source does and whatever is asked before; and
its nodes are those that are stored. -/
theorem nodes_concatenated :
    (∀ cutoff, Quicklist.Concatenates (Ziplist.decode cutoff) (Quicklist.decode cutoff)) ∧
      Quicklist.NodesOfForms ∧
      (∀ (p : Profile) (source : Source) (ops : List Step) (fields : KeyFields)
        (d : Deferred Packed), .keyValue fields d ∈ ((start p source).run ops).entries →
          (fields.kind = .listQuicklist ∨ fields.kind = .listQuicklist2) →
            ∃ (version : Nat) (c : Content) (answer : Except PackedError (List Bytes)),
              c.kind = fields.kind ∧ c.nodesAnswer? (p.cutoffFor version) = some answer ∧
                d.AllOrNone answer) ∧
      ∀ (p : Profile) (version n : Nat) (s : Session) (marks : List Mark) (name : Bytes)
        (c : Content) (answer : Except PackedError (List Bytes)) (bs rest : Bytes),
        Wire.RecordForm p version (.key marks name c) bs → Before p version (bs ++ rest) n s →
          c.nodesAnswer? (p.cutoffFor version) = some answer → ∀ ops : List Step,
            ∃ d, (s.next.2.run ops).entries[s.entries.size]? =
              some (.keyValue (Record.keyFields marks name c.kind) d) ∧ d.AllOrNone answer := by
  refine ⟨Quicklist.decode_concatenates, Quicklist.nodesOfForms, ?_, ?_⟩
  · intro p source ops fields d hmem hkind
    have hkeeps : Keeps p Anything ((start p source).run ops) :=
      (keeps_start trivial).run (.anything p) ops
    exact (hkeeps.entries _ hmem).nodes hkind
  · intro p version n s marks name c answer bs rest hform hs hanswer ops
    obtain ⟨d, hd, hsame⟩ := exists_entry_run_next hform.reads hs ops
    exact ⟨d, hd, c.allOrNone hanswer hsame⟩

/-- A listpack of a single element. -/
def shortListpack : Bytes :=
  [10, 0, 0, 0, 1, 0, 0x81, 0x62, 2, 0xFF]

/-- A listpack that is cut inside its only element. -/
def cutListpack : Bytes :=
  [10, 0, 0, 0, 1, 0, 0x82, 0x63]

/-- A list of a plain node, a listpack, one that is cut, and a node in no known form. -/
def brokenNodes : List (Nat × Bytes) :=
  [(1, [0x61]), (2, shortListpack), (2, cutListpack), (3, [0x64])]

/-- The failure of the listpack that is cut. -/
def cutListpackError : PackedError :=
  .cutShort "listpack" 2 7 8

/-- A snapshot that ends behind its only key, `k`, which holds that list. -/
def brokenList : Bytes :=
  [18, 1, 0x6B, 4, 1, 1, 0x61, 2, 10] ++ shortListpack ++ [2, 8] ++ cutListpack ++ [3, 1, 0x64]

theorem brokenList_form :
    Wire.RecordForm .standard 11 (.key [] [0x6B] (.quicklist2 brokenNodes)) brokenList := by
  have htext (b : UInt8) : Wire.Text Profile.standard.textLimit [b] ([1] ++ [b]) :=
    @Wire.Text.raw _ [b] [1] (show (1 : Int) ≤ _ by decide) (.six (show 1 < 64 by decide))
  have hshort : Wire.Text Profile.standard.textLimit shortListpack ([10] ++ shortListpack) :=
    .raw (by decide) (.six (by decide))
  have hcut : Wire.Text Profile.standard.textLimit cutListpack ([8] ++ cutListpack) :=
    .raw (by decide) (.six (by decide))
  have hnodes : Wire.Sequence (Wire.Pair Wire.Length (Wire.Text Profile.standard.textLimit))
      brokenNodes (([1] ++ [1, 0x61]) ++ (([2] ++ ([10] ++ shortListpack)) ++
        (([2] ++ ([8] ++ cutListpack)) ++ (([3] ++ [1, 0x64]) ++ [])))) :=
    .cons (.intro (.six (by decide)) (htext 0x61)) (.cons (.intro (.six (by decide)) hshort)
      (.cons (.intro (.six (by decide)) hcut)
        (.cons (.intro (.six (by decide)) (htext 0x64)) .nil)))
  have hvalue : Wire.Value .standard (.quicklist2 brokenNodes) (brokenList.drop 3) :=
    @Wire.Counted.intro _ _ _ brokenNodes [4] _ (by decide) (.six (by decide)) hnodes
  have hkey : Wire.RecordForm .standard 11 (.key [] [0x6B] (.quicklist2 brokenNodes))
      (ValueKind.listQuicklist2.code :: ([1, 0x6B] ++ brokenList.drop 3)) :=
    .key .nil rfl (htext 0x6B) hvalue
  exact hkey

/-- A ziplist of a single element. -/
def shortZiplist : Bytes :=
  [0, 0, 0, 0, 0, 0, 0, 0, 1, 0, 0, 1, 0x61, 0xFF]

/-- A ziplist that is cut inside its only element. -/
def cutZiplist : Bytes :=
  [0, 0, 0, 0, 0, 0, 0, 0, 1, 0, 0, 2, 0x61]

/-- The elements of the nodes in front stand behind each other; with a node that is cut there are
none, whatever stands behind it. So is the key answered however often its elements are asked for. -/
theorem nodes_concatenated_brokenList :
    Quicklist.decodeNodes [(1, [0x61]), (2, shortListpack)] = .ok [[0x61], [0x62]] ∧
      Quicklist.decodeNodes [(1, [0x61]), (2, shortListpack), (2, cutListpack), (3, [0x64])] =
        .error cutListpackError ∧
      Quicklist.decode 0xFE [shortZiplist, shortZiplist] = .ok [[0x61], [0x61]] ∧
      Quicklist.decode 0xFE [shortZiplist, cutZiplist, shortZiplist] =
        .error (.cutShort "ziplist" 2 12 13) ∧
      (∃ (version : Nat) (c : Content) (answer : Except PackedError (List Bytes)),
        c.kind = .listQuicklist2 ∧
          c.nodesAnswer? (Profile.standard.cutoffFor version) = some answer ∧
            (Deferred.capture (Packed.quicklist2
              [(1, [0x61]), (2, shortListpack), (2, cutListpack), (3, [0x64])])).AllOrNone answer) ∧
      ∃ s, (start .standard (.ofBytes (Read.fixedLetters ++ Wire.versionField 11 ++
          (brokenList ++ [])))).openSnapshot = (.ok 11, s) ∧
        ∀ ops : List Step, ∃ d, (s.next.2.run ops).entries[s.entries.size]? =
          some (.keyValue { key := [0x6B], kind := .listQuicklist2 } d) ∧
            d.AllOrNone (.error cutListpackError) := by
  have hsource : (Source.ofBytes (Read.fixedLetters ++ Wire.versionField 11 ++
      (brokenList ++ []))).Delivers _ Profile.standard.bufferSize := .contents (by decide)
  obtain ⟨s, hopen, hs, -⟩ := openSnapshot_header (by decide) (by decide) hsource
  have hmem := entry_mem_run_next (by decide) (by decide) brokenList_form.reads hsource
  obtain ⟨hziplists, hforms, hkeys, hstored⟩ := nodes_concatenated
  have hnodes := hforms.concatenates
  have hshort : Listpack.decode shortListpack = .ok [[0x62]] := rfl
  have hcut : Listpack.decode cutListpack = .error cutListpackError := rfl
  have hparts : List.Forall₂ (fun n part => Quicklist.decodeNode n = .ok part)
      [(1, [0x61]), (2, shortListpack)] [[[0x61]], [[0x62]]] :=
    .cons (hforms.plain _) (.cons ((hforms.packed _).trans hshort) .nil)
  have hbroken : Quicklist.decodeNodes
      [(1, [0x61]), (2, shortListpack), (2, cutListpack), (3, [0x64])] =
        .error cutListpackError := by
    refine (hnodes.error_iff _ _).mpr ⟨[(1, [0x61]), (2, shortListpack)], (2, cutListpack),
      [(3, [0x64])], rfl, ?_, (hforms.packed _).trans hcut⟩
    rintro m (_ | ⟨_, _ | ⟨_, ⟨⟩⟩⟩)
    · exact ⟨_, hforms.plain _⟩
    · exact ⟨_, (hforms.packed _).trans hshort⟩
  have hshortZiplist : Ziplist.decode 0xFE shortZiplist = .ok [[0x61]] := rfl
  have hcutZiplist : Ziplist.decode 0xFE cutZiplist = .error (.cutShort "ziplist" 2 12 13) := rfl
  refine ⟨(hnodes.ok_iff _ _).mpr ⟨_, hparts, rfl⟩, hbroken,
    ((hziplists _).ok_iff _ _).mpr ⟨_, .cons hshortZiplist (.cons hshortZiplist .nil), rfl⟩,
    ((hziplists _).error_iff _ _).mpr ⟨[shortZiplist], cutZiplist, [shortZiplist], rfl, ?_,
      hcutZiplist⟩, hkeys _ _ _ _ _ hmem (.inr rfl), s, hopen, fun ops => ?_⟩
  · exact List.forall_mem_singleton.mpr ⟨_, hshortZiplist⟩
  · exact hstored _ _ _ _ _ _ _ _ _ _ brokenList_form hs (congrArg some hbroken) ops

end Session

end RedisDump
