import RedisDump.Deferred.Rehearsal
import RedisDump.Proofs.Questions

/-!
# Equality of entries

A comparison of two keys may have to decode their elements; it may fail to, and can be tried again.
Where it succeeds, the elements that it looked at are known from then on, and what is known of an
entry stays known whatever is done with the row (`Entry.Continues`). So an answer does not depend on
the time at which it is given, nor on which of the two entries comes first: it is that of an
equivalence, which the hash respects (`Entry.equality_laws`).
-/

namespace RedisDump

variable {δ ε : Type} [Decodable δ ε]

/-- The elements of a list stay known when the list is decoded again. -/
theorem Deferred.force_force {d : Deferred δ} {xs : List Bytes} (h : d.force.1 = .ok xs) :
    d.force.2.force.1 = .ok xs := by
  have hf : d.force = (.ok xs, d.force.2) := Prod.ext h rfl
  rw [force_of_ok hf]
  rfl

namespace Entry

/-! ### Comparisons that succeed -/

section

omit [Decodable δ ε]

theorem sameFields_iff {e e' : Entry δ} : e.sameFields e' = true ↔ e.bare = e'.bare :=
  decide_eq_true_iff

theorem sameFields_comm (e e' : Entry δ) : e.sameFields e' = e'.sameFields e :=
  decide_eq_decide.mpr eq_comm

/-- Entries with the same fields have the same hash, however entries are hashed. -/
theorem sameHash_of_bare_eq {e e' : Entry δ} (h : e.bare = e'.bare) (hashing : Hashing) :
    e.sameHash e' hashing = true :=
  @decide_eq_true _ (hashing.decidable _ _) (congrArg hashing.code h)

theorem Close.symm {e e' : Entry δ} (h : Close e e') : Close e' e := by
  obtain ⟨f, v, f', v', rfl, rfl, hkey, hkind⟩ := h.exists_keyValue
  exact ⟨hkey.symm, hkind.symm⟩

/-- Entries that are not close have the same fields only if they are the same. -/
theorem eq_of_bare_eq {e e' : Entry δ} (hc : ¬ Close e e') (h : e.bare = e'.bare) : e = e' := by
  cases e with
  | keyValue f v =>
    cases e' with
    | keyValue f' v' =>
      obtain ⟨hf, -⟩ := Entry.keyValue.inj h
      subst hf
      exact absurd ⟨rfl, rfl⟩ hc
    | eof | selectDb | resizeDb | aux => cases h
  | eof | selectDb | resizeDb | aux => cases e' <;> simp_all [bare]

end

/-- What a comparison that succeeds answers. -/
inductive Compares : Entry δ → Entry δ → Bool → Prop where
  /-- The elements are not looked at. -/
  | apart {e e' : Entry δ} : ¬ Close e e' → Compares e e' (e.sameFields e')
  /-- The elements of both keys are decoded. -/
  | close {f f' : KeyFields} {v v' : Deferred δ} {xs xs' : List Bytes} :
    f.key = f'.key ∧ f.kind = f'.kind → v.force.1 = .ok xs → v'.force.1 = .ok xs' →
      Compares (keyValue f v) (keyValue f' v') (xs == xs' && f == f')

theorem compare_eq_ok_iff {e e' : Entry δ} {b : Bool} :
    (e.compare e').1 = .ok b ↔ Compares e e' b := by
  by_cases hc : Close e e'
  · obtain ⟨f, v, f', v', rfl, rfl, hclose⟩ := hc.exists_keyValue
    rw [compare_fst_keyValue, if_pos hclose]
    constructor
    · intro h
      cases hv : v.force.1 with
      | error => rw [hv] at h; cases h
      | ok xs =>
        cases hv' : v'.force.1 with
        | error => rw [hv, hv'] at h; cases h
        | ok xs' =>
          rw [hv, hv'] at h
          cases h
          exact .close hclose hv hv'
    · rintro (hapart | ⟨-, hv, hv'⟩)
      · exact absurd hclose hapart
      · rw [hv, hv']
        rfl
  · rw [compare_of_not_close hc]
    constructor
    · rintro ⟨⟩
      exact .apart hc
    · rintro (- | ⟨hclose, -, -⟩)
      · rfl
      · exact absurd hclose hc

namespace Compares

variable {e e' e'' : Entry δ} {b : Bool}

theorem symm (h : Compares e e' b) : Compares e' e b := by
  cases h with
  | apart hc =>
    rw [sameFields_comm]
    exact .apart fun h => hc h.symm
  | @close f f' v v' xs xs' hc hv hv' =>
    have hb : (xs == xs' && f == f') = (xs' == xs && f' == f) := by
      rw [Bool.beq_comm, @Bool.beq_comm _ _ _ f]
    rw [hb]
    exact .close ⟨hc.1.symm, hc.2.symm⟩ hv' hv

theorem bare_eq (h : Compares e e' b) (hb : b = true) : e.bare = e'.bare := by
  cases h with
  | apart => exact sameFields_iff.mp hb
  | close =>
    obtain ⟨-, hf⟩ := Bool.and_eq_true_iff.mp hb
    rw [bare, bare, eq_of_beq hf]

/-- Keys that are found equal have the same elements. -/
theorem elements {f f' : KeyFields} {v v' : Deferred δ}
    (h : Compares (keyValue f v) (keyValue f' v') b) (hb : b = true)
    (hc : f.key = f'.key ∧ f.kind = f'.kind) :
    f = f' ∧ ∃ xs, v.force.1 = .ok xs ∧ v'.force.1 = .ok xs := by
  cases h with
  | apart hapart => exact absurd hc hapart
  | close _ hv hv' =>
    obtain ⟨hxs, hf⟩ := Bool.and_eq_true_iff.mp hb
    rw [← eq_of_beq hxs] at hv'
    exact ⟨eq_of_beq hf, _, hv, hv'⟩

theorem trans (h : Compares e e' true) (h' : Compares e' e'' true) : Compares e e'' true := by
  -- equal entries that are not close are the same entry, so elements matter only if both pairs are
  by_cases hc : Close e e'
  · by_cases hc' : Close e' e''
    · obtain ⟨f, v, f', v', rfl, rfl, hclose⟩ := hc.exists_keyValue
      obtain ⟨_, _, f'', v'', ⟨⟩, rfl, hclose'⟩ := hc'.exists_keyValue
      obtain ⟨rfl, xs, hv, hv'⟩ := h.elements rfl hclose
      obtain ⟨rfl, ys, hy, hv''⟩ := h'.elements rfl hclose'
      cases hv'.symm.trans hy
      have hall := Compares.close hclose hv hv''
      rwa [beq_self_eq_true, beq_self_eq_true, Bool.and_self] at hall
    · rwa [← eq_of_bare_eq hc' (h'.bare_eq rfl)]
  · rwa [eq_of_bare_eq hc (h.bare_eq rfl)]

end Compares

/-! ### What is known of an entry -/

/-- What is known of an entry is known of another one, which it may have become. A failed attempt to
decode it does not count as known: a later one may succeed. -/
inductive Persists : Entry δ → Entry δ → Prop where
  | refl (e : Entry δ) : Persists e e
  | keyValue {fields : KeyFields} {values values' : Deferred δ} :
    (∀ xs, values.force.1 = .ok xs → values'.force.1 = .ok xs) →
      Persists (.keyValue fields values) (.keyValue fields values')

namespace Persists

variable {e e₁ e' e₁' : Entry δ} {b : Bool}

theorem trans (h : Persists e e₁) (h' : Persists e₁ e') : Persists e e' := by
  cases h with
  | refl => exact h'
  | keyValue hv => cases h' with
    | refl => exact .keyValue hv
    | keyValue hv' => exact .keyValue fun xs hxs => hv' xs (hv xs hxs)

/-- What an entry has become has its fields. -/
theorem same_fields (h : Persists e e₁) :
    (∀ other, Close e₁ other ↔ Close e other) ∧ e₁.bare = e.bare := by
  cases h with
  | refl => exact ⟨fun _ => Iff.rfl, rfl⟩
  | keyValue =>
    refine ⟨fun other => ?_, rfl⟩
    cases other <;> exact Iff.rfl

theorem of_keyValue {f : KeyFields} {v : Deferred δ} (h : Persists (.keyValue f v) e₁) :
    ∃ v₁ : Deferred δ, e₁ = .keyValue f v₁ ∧ ∀ xs, v.force.1 = .ok xs → v₁.force.1 = .ok xs := by
  cases h with
  | refl => exact ⟨v, rfl, fun _ hxs => hxs⟩
  | keyValue hv => exact ⟨_, rfl, hv⟩

/-- A comparison that succeeds goes on to succeed with the same answer. -/
theorem compares (h : Persists e e₁) (h' : Persists e' e₁') (hb : Compares e e' b) :
    Compares e₁ e₁' b := by
  cases hb with
  | apart hc =>
    obtain ⟨hc₁, hbare⟩ := h.same_fields
    obtain ⟨hc₁', hbare'⟩ := h'.same_fields
    have hclose : Close e₁ e₁' ↔ Close e e' := by
      rw [hc₁]
      exact ⟨fun hc => ((hc₁' e).mp hc.symm).symm, fun hc => ((hc₁' e).mpr hc.symm).symm⟩
    have hfields : e₁.sameFields e₁' = e.sameFields e' := by
      rw [sameFields, hbare, hbare', sameFields]
    rw [← hfields]
    exact .apart (mt hclose.mp hc)
  | close hc hv hv' =>
    obtain ⟨v₁, rfl, hkeeps⟩ := h.of_keyValue
    obtain ⟨v₁', rfl, hkeeps'⟩ := h'.of_keyValue
    exact .close hc (hkeeps _ hv) (hkeeps' _ hv')

end Persists

theorem persists_forceValues (e : Entry δ) : Persists e (e.forceValues (ε := ε)).2 := by
  cases e with
  | keyValue => exact .keyValue fun _ hxs => Deferred.force_force hxs
  | eof | selectDb | resizeDb | aux => exact .refl _

/-! ### What is done with a row -/

/-- What is done with a row of entries. -/
inductive Action (δ : Type) where
  /-- An entry is made from a draft. -/
  | make (draft : Draft δ)
  /-- A question is asked. -/
  | ask (q : Step)
  deriving DecidableEq, Repr

/-- The row after an action. -/
def act (entries : Array (Entry δ)) : Action δ → Array (Entry δ)
  | .make draft => (make (ε := ε) draft entries).2
  | .ask q => (step (ε := ε) entries q).2

/-- The row after a sequence of actions. -/
def run (entries : Array (Entry δ)) (actions : List (Action δ)) : Array (Entry δ) :=
  actions.foldl (act (ε := ε)) entries

/-- A row that starts with what the entries of another one have become. -/
structure Continues (old new : Array (Entry δ)) : Prop where
  size : old.size ≤ new.size
  persists : ∀ i (h : i < old.size) (h' : i < new.size), Persists old[i] new[i]

namespace Continues

variable {old mid new : Array (Entry δ)}

theorem refl (entries : Array (Entry δ)) : Continues entries entries :=
  ⟨Nat.le_refl _, fun _ _ _ => .refl _⟩

theorem trans (h : Continues old mid) (h' : Continues mid new) : Continues old new where
  size := Nat.le_trans h.size h'.size
  persists i hi hi' := by
    have hmid : i < mid.size := Nat.lt_of_lt_of_le hi h.size
    exact (h.persists i hi hmid).trans (h'.persists i hmid hi')

theorem push (entries : Array (Entry δ)) (e : Entry δ) : Continues entries (entries.push e) where
  size := by simp
  persists i hi _ := by
    rw [Array.getElem_push_lt hi]
    exact .refl _

end Continues

theorem Decoded.continues {old new : Array (Entry δ)} (h : Decoded old new) :
    Continues old new where
  size := Nat.le_of_eq h.size.symm
  persists i hi hi' := by
    rcases h.entry i hi hi' with he | he
    · rw [he]
      exact .refl _
    · rw [he]
      exact persists_forceValues _

theorem continues_act (entries : Array (Entry δ)) (a : Action δ) :
    Continues entries (act entries a) := by
  cases a with
  | make draft =>
    simp only [act, make]
    split
    · exact .push entries _
    · exact .refl entries
  | ask q => exact (decoded_step entries q).continues

theorem continues_run (entries : Array (Entry δ)) (actions : List (Action δ)) :
    Continues entries (run entries actions) := by
  induction actions generalizing entries with
  | nil => exact .refl entries
  | cons a actions ih => exact (continues_act entries a).trans (ih _)

/-! ### Questions of equality -/

/-- The question whether the entries at two positions are equal is answered by `b`. -/
def Says (entries : Array (Entry δ)) (i j : Int) (b : Bool) : Prop :=
  (step (ε := ε) entries (.equals i j)).1 = .ok (.truth b)

/-- What is found where two places of a row are compared. -/
def Finds (entries : Array (Entry δ)) (m n : Nat) (b : Bool) : Prop :=
  ∃ (hm : m < entries.size) (hn : n < entries.size),
    m = n ∧ b = true ∨ m ≠ n ∧ Compares entries[m] entries[n] b

theorem askEquals_eq_ok_iff {entries : Array (Entry δ)} {m n : Nat} (hm : m < entries.size)
    (hn : n < entries.size) {b : Bool} :
    (askEquals (ε := ε) entries ⟨m, hm⟩ ⟨n, hn⟩).1 = .ok (.truth b) ↔ Finds entries m n b := by
  rw [askEquals_fst]
  by_cases hmn : m = n
  · rw [if_pos hmn]
    constructor
    · rintro ⟨⟩
      exact ⟨hm, hn, .inl ⟨hmn, rfl⟩⟩
    · rintro ⟨-, -, ⟨-, rfl⟩ | ⟨hne, -⟩⟩
      · rfl
      · exact absurd hmn hne
  · have hanswer : ∀ r : Except ε Bool, ((r.map Answer.truth).mapError fun e =>
        Error.values (.decoding e) : Except (Error ε) (Answer δ)) = .ok (.truth b) ↔ r = .ok b := by
      intro r
      cases r with
      | error e => exact ⟨nofun, nofun⟩
      | ok b' => constructor <;> rintro ⟨⟩ <;> rfl
    rw [if_neg hmn, hanswer, compare_eq_ok_iff]
    constructor
    · intro hc
      exact ⟨hm, hn, .inr ⟨hmn, hc⟩⟩
    · rintro ⟨_, _, ⟨hsame, -⟩ | ⟨-, hc⟩⟩
      · exact absurd hsame hmn
      · exact hc

theorem says_iff {entries : Array (Entry δ)} {i j : Int} {b : Bool} : Says entries i j b ↔
    ∃ p q, Position.place entries.size i = .ok p ∧ Position.place entries.size j = .ok q ∧
      Finds entries p q b := by
  simp only [Says, step, atPosition]
  cases hp : Position.place entries.size i with
  | error e => exact ⟨nofun, fun ⟨p, q, h, _⟩ => nomatch h⟩
  | ok p =>
    cases hq : Position.place entries.size j with
    | error e => exact ⟨nofun, fun ⟨p, q, _, h, _⟩ => nomatch h⟩
    | ok q =>
      constructor
      · intro h
        exact ⟨p, q, rfl, rfl, (askEquals_eq_ok_iff p.isLt q.isLt).mp h⟩
      · rintro ⟨_, _, ⟨⟩, ⟨⟩, h⟩
        exact (askEquals_eq_ok_iff p.isLt q.isLt).mpr h

namespace Finds

variable {entries new : Array (Entry δ)} {m n r : Nat} {b : Bool}

theorem symm (h : Finds entries m n b) : Finds entries n m b := by
  obtain ⟨hm, hn, ⟨hmn, hb⟩ | ⟨hmn, hc⟩⟩ := h
  · exact ⟨hn, hm, .inl ⟨hmn.symm, hb⟩⟩
  · exact ⟨hn, hm, .inr ⟨hmn.symm, hc.symm⟩⟩

theorem trans (h : Finds entries m n true) (h' : Finds entries n r true) :
    Finds entries m r true := by
  obtain ⟨hm, _, ⟨rfl, -⟩ | ⟨hmn, hc⟩⟩ := h
  · exact h'
  · obtain ⟨hn, hr, ⟨rfl, -⟩ | ⟨hnr, hc'⟩⟩ := h'
    · exact ⟨hm, hn, .inr ⟨hmn, hc⟩⟩
    · by_cases hmr : m = r
      · exact ⟨hm, hr, .inl ⟨hmr, rfl⟩⟩
      · exact ⟨hm, hr, .inr ⟨hmr, hc.trans hc'⟩⟩

theorem bare_eq (h : Finds entries m n true) (hm : m < entries.size) (hn : n < entries.size) :
    entries[m].bare = entries[n].bare := by
  obtain ⟨_, _, ⟨rfl, -⟩ | ⟨-, hc⟩⟩ := h
  · rfl
  · exact hc.bare_eq rfl

theorem continues (h : Finds entries m n b) (hrow : Continues entries new) :
    Finds new m n b := by
  obtain ⟨hm, hn, h⟩ := h
  have hm' := Nat.lt_of_lt_of_le hm hrow.size
  have hn' := Nat.lt_of_lt_of_le hn hrow.size
  refine ⟨hm', hn', h.imp_right fun ⟨hmn, hc⟩ => ⟨hmn, ?_⟩⟩
  exact (hrow.persists m hm hm').compares (hrow.persists n hn hn') hc

end Finds

/-- Two positions, each in a row of its own, that name the same place. -/
def SamePlace (m n : Nat) (i j : Int) : Prop :=
  ∃ p q, Position.place m i = .ok p ∧ Position.place n j = .ok q ∧ p.val = q.val

/-- The laws of equality in a row of entries, and in what becomes of it. -/
structure EqualityLaws (entries : Array (Entry δ)) : Prop where
  /-- An entry equals itself, which is seen without its elements. -/
  self : ∀ i j p, Position.place entries.size i = .ok p → Position.place entries.size j = .ok p →
    step (ε := ε) entries (.equals i j) = (.ok (.truth true), entries)
  symm : ∀ i j b, Says entries i j b ↔ Says entries j i b
  trans : ∀ i j k, Says entries i j true → Says entries j k true → Says entries i k true
  /-- Entries that are found equal have the same hash, however entries are hashed. -/
  hash : ∀ hashing i j, Says entries i j true →
    step (ε := ε) entries (.sameHash i j) hashing = (.ok (.truth true), entries)
  /-- The answer stays the same, whatever is done with the row. -/
  stable : ∀ actions i j i' j' b, SamePlace entries.size (run entries actions).size i i' →
    SamePlace entries.size (run entries actions).size j j' → Says entries i j b →
      Says (run entries actions) i' j' b
  /-- Transitivity holds of answers that are given one after the other. -/
  chained : ∀ before after i j k, 0 ≤ i → 0 ≤ j → 0 ≤ k → Says entries i j true →
    Says (run entries before) j k true → Says (run (run entries before) after) i k true
  /-- Hashes are compared without the elements. -/
  sameHash_idle : ∀ hashing i j, (step (ε := ε) entries (.sameHash i j) hashing).2 = entries
  /-- Elements are decoded only if they decide between two keys of the same name and kind. -/
  decodes : ∀ i j, (step (ε := ε) entries (.equals i j)).2 ≠ entries →
    ∃ (m n : Nat) (hm : m < entries.size) (hn : n < entries.size),
      Position.place entries.size i = .ok ⟨m, hm⟩ ∧ Position.place entries.size j = .ok ⟨n, hn⟩ ∧
        m ≠ n ∧ Close entries[m] entries[n]

theorem Says.of_continues {old new : Array (Entry δ)} (hrow : Continues old new) {i j i' j' : Int}
    {b : Bool} (hi : SamePlace old.size new.size i i') (hj : SamePlace old.size new.size j j')
    (h : Says old i j b) : Says new i' j' b := by
  obtain ⟨p, q, hp, hq, hfinds⟩ := says_iff.mp h
  obtain ⟨_, p', hpi, hp', hpp⟩ := hi
  obtain ⟨_, q', hqj, hq', hqq⟩ := hj
  cases hp.symm.trans hpi
  cases hq.symm.trans hqj
  have hfinds' := hfinds.continues hrow
  rw [hpp, hqq] at hfinds'
  exact says_iff.mpr ⟨p', q', hp', hq', hfinds'⟩

/-- A position counted from the start goes on to name its place. -/
theorem samePlace_of_place {m n : Nat} (h : m ≤ n) {i : Int} (hi : 0 ≤ i) {p : Fin m}
    (hp : Position.place m i = .ok p) : SamePlace m n i i := by
  have hfrom : Position.fromStart m i = i := if_neg (Int.not_lt.mpr hi)
  have hval := Position.val_of_place_eq_ok hp
  have hlt : i < m := by have := p.isLt; omega
  refine ⟨p, p.castLE h, hp, ?_, rfl⟩
  rw [Position.place_of_le h ⟨hi, hlt⟩, hp]
  rfl

theorem Says.run {entries : Array (Entry δ)} {i j : Int} {b : Bool} (hi : 0 ≤ i) (hj : 0 ≤ j)
    (h : Says entries i j b) (actions : List (Action δ)) : Says (run entries actions) i j b := by
  have hrow := continues_run entries actions
  obtain ⟨p, q, hp, hq, -⟩ := says_iff.mp h
  have hi' := samePlace_of_place hrow.size hi hp
  have hj' := samePlace_of_place hrow.size hj hq
  exact h.of_continues hrow hi' hj'

theorem says_trans {entries : Array (Entry δ)} {i j k : Int} (h : Says entries i j true)
    (h' : Says entries j k true) : Says entries i k true := by
  obtain ⟨p, q, hp, hq, hpq⟩ := says_iff.mp h
  obtain ⟨_, r, hq', hr, hqr⟩ := says_iff.mp h'
  cases hq.symm.trans hq'
  exact says_iff.mpr ⟨p, r, hp, hr, hpq.trans hqr⟩

theorem says_symm {entries : Array (Entry δ)} {i j : Int} {b : Bool} (h : Says entries i j b) :
    Says entries j i b := by
  obtain ⟨p, q, hp, hq, hpq⟩ := says_iff.mp h
  exact says_iff.mpr ⟨q, p, hq, hp, hpq.symm⟩

theorem step_sameHash_snd (entries : Array (Entry δ)) (hashing : Hashing) (i j : Int) :
    (step (ε := ε) entries (.sameHash i j) hashing).2 = entries := by
  simp only [step, atPosition]
  split
  · split <;> rfl
  · rfl

theorem close_of_decodes {entries : Array (Entry δ)} {i j : Int}
    (h : (step (ε := ε) entries (.equals i j)).2 ≠ entries) :
    ∃ (m n : Nat) (hm : m < entries.size) (hn : n < entries.size),
      Position.place entries.size i = .ok ⟨m, hm⟩ ∧ Position.place entries.size j = .ok ⟨n, hn⟩ ∧
        m ≠ n ∧ Close entries[m] entries[n] := by
  simp only [step, atPosition] at h
  cases hp : Position.place entries.size i with
  | error e => simp only [hp, ne_eq, not_true_eq_false] at h
  | ok p =>
    cases hq : Position.place entries.size j with
    | error e => simp only [hp, hq, ne_eq, not_true_eq_false] at h
    | ok q =>
      simp only [hp, hq, askEquals, Fin.getElem_fin] at h
      refine ⟨p, q, p.isLt, q.isLt, rfl, rfl, ?_⟩
      by_cases hpq : p = q
      · simp only [if_pos hpq, ne_eq, not_true_eq_false] at h
      -- entries that are not close are put back as they were
      · refine ⟨mt Fin.ext hpq, Classical.byContradiction fun hc => h ?_⟩
        have hself (p : Fin entries.size) : entries.setIfInBounds p entries[p.val] = entries := by
          simp [Array.setIfInBounds]
        simp only [if_neg hpq, compare_of_not_close hc, hself]

/-- **Equality of entries is an equivalence, which the hash respects**, in any row: whatever has
been asked, and however often decoding has failed and will fail. -/
theorem equality_laws (entries : Array (Entry δ)) : EqualityLaws entries where
  self i j p hi hj := by simp only [step, atPosition, hi, hj, askEquals, if_pos]
  symm i j b := ⟨says_symm, says_symm⟩
  trans i j k := says_trans
  hash hashing i j h := by
    obtain ⟨p, q, hp, hq, hpq⟩ := says_iff.mp h
    have hhash := sameHash_of_bare_eq (hpq.bare_eq p.isLt q.isLt) hashing
    simp only [step, atPosition, hp, hq, Fin.getElem_fin, hhash]
  stable actions i j i' j' b hi hj h := h.of_continues (continues_run entries actions) hi hj
  chained before after i j k hi hj hk h h' :=
    says_trans ((h.run hi hj before).run hi hj after) (h'.run hj hk after)
  sameHash_idle := step_sameHash_snd entries
  decodes i j := close_of_decodes

/-- The draft of a key `k` whose elements are the list `d`. -/
def listDraft (d : Deferred Rehearsal) : Draft Rehearsal :=
  .keyValue (.bytes [0x6B]) (.text ValueKind.listQuicklist.label) (.list d) .absent .absent .absent

/-- Three keys with the same element, which is known of the second one, given by the third one, and
given by the first one after a failure. -/
def slowTwins : Array (Entry Rehearsal) :=
  run #[] [.make (listDraft (.capture { captured := [0x65], failures := 1, outcome := [[0x61]] })),
    .make (listDraft (.ofElements [[0x61]])),
    .make (listDraft (.capture { captured := [0x66], outcome := [[0x61]] }))]

/-- Where the first comparison fails, later ones succeed: the keys are equal, and go on to be. -/
theorem equality_laws_slowTwins :
    (∀ b, ¬ Says slowTwins 0 1 b) ∧ slowTwins.size = 3 ∧
      Says (run slowTwins [.ask (.equals 0 1)]) 0 2 true ∧
      (∀ hashing, step (run slowTwins [.ask (.equals 0 1)]) (.sameHash 2 0) hashing =
        (.ok (.truth true), run slowTwins [.ask (.equals 0 1)])) ∧
      Says (run (run slowTwins [.ask (.equals 0 1)]) [.make (.eof .absent), .ask (.values 2)]) 0 2
        true := by
  have laws := equality_laws (run slowTwins [.ask (.equals 0 1)])
  have h₀₁ : Says (run slowTwins [.ask (.equals 0 1)]) 0 1 true := rfl
  have h₁₂ : Says (run slowTwins [.ask (.equals 0 1)]) 1 2 true := rfl
  have h₀₂ := laws.trans 0 1 2 h₀₁ h₁₂
  refine ⟨nofun, rfl, h₀₂, fun hashing => laws.hash hashing 2 0 ((laws.symm 0 2 true).mp h₀₂), ?_⟩
  exact laws.stable _ 0 2 0 2 true ⟨_, _, rfl, rfl, rfl⟩ ⟨_, _, rfl, rfl, rfl⟩ h₀₂

end Entry

end RedisDump
