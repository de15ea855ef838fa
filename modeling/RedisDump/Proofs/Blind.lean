import RedisDump.Proofs.Bytewise
import RedisDump.Proofs.Outcome.Sessions

/-!
# Readers that do not look

Two strings of bytes are read side by side. They agree in most places but not in all, and a reader
is *blind* to the places of a set if the second run keeps to the first one whatever stands there:
both succeed, with values that are alike, or both fail with the same error, after as many bytes
(`Blind`). The strings have to agree only where the first run reads, and not at the places of the
set.

A reader that decides on every byte is blind to nothing (`Bytewise.blind`). The bytes of a string
that is stored raw are counted and not looked at (`blind_bytes`). Blind readers in turn are blind
to the places of each (`Blind.bind`), so what a longer reader does not look at is put together from
what its parts do not look at.
-/

namespace RedisDump

/-- What is known of two runs side by side. -/
structure SideBySide (σ : Type) where
  /-- The number of bytes read. -/
  place : σ → Nat
  /-- The states that face each other. -/
  near : σ → σ → Prop
  /-- The places in which the two strings agree. -/
  agree : Nat → Prop

variable {σ α β : Type}

namespace SideBySide

/-- The number of bytes read in the end. -/
def stop (w : SideBySide σ) : EStateM.Result ReadError σ α → Nat
  | .ok _ s | .error _ s => w.place s

/-- Two results that face each other: the same error, or values that are alike. -/
inductive Match (w : SideBySide σ) (R : α → α → Prop) :
    EStateM.Result ReadError σ α → EStateM.Result ReadError σ α → Prop where
  | ok {a a' : α} {s t : σ} : R a a' → w.near s t → Match w R (.ok a s) (.ok a' t)
  | error {e : ReadError} {s t : σ} : w.near s t → Match w R (.error e s) (.error e t)

end SideBySide

/-- From `s` on the reader `r` does not look at the places in `V`: beside it `r'` comes to a result
that faces that of `r` whenever the strings agree in the other places that `r` reads. -/
structure Blind (w : SideBySide σ) (s : σ) (r r' : EStateM ReadError σ α) (V : Nat → Prop)
    (R : α → α → Prop) : Prop where
  grows : w.place s ≤ w.stop (r s)
  lower : ∀ k, V k → w.place s ≤ k
  upper : ∀ a s', r s = .ok a s' → ∀ k, V k → k < w.place s'
  follows : ∀ t, w.near s t →
    (∀ k, w.place s ≤ k → k < w.stop (r s) → ¬ V k → w.agree k) → w.Match R (r s) (r' t)

/-- No place. -/
def nowhere (_ : Nat) : Prop := False

/-- The places not looked at behind a reader: those that what follows its success does not look
at. -/
def Behind (s : σ) (r : EStateM ReadError σ α) (V : α → σ → Nat → Prop) (k : Nat) : Prop :=
  ∃ a s', r s = .ok a s' ∧ V a s' k

namespace Blind

variable {w : SideBySide σ} {s : σ} {r r' : EStateM ReadError σ α} {V : Nat → Prop}
  {R : α → α → Prop}

theorem pure {a a' : α} (h : R a a') : Blind w s (Pure.pure a) (Pure.pure a') nowhere R where
  grows := Nat.le_refl _
  lower := by rintro k ⟨⟩
  upper := by rintro _ _ _ k ⟨⟩
  follows := fun _ ht _ => .ok h ht

theorem throw (e : ReadError) :
    Blind w s (MonadExcept.throw e) (MonadExcept.throw e) nowhere R where
  grows := Nat.le_refl _
  lower := by rintro k ⟨⟩
  upper := by rintro _ _ _ k ⟨⟩
  follows := fun _ ht _ => .error ht

/-- Fewer places may be left out, and more values may be alike. -/
theorem mono {V' : Nat → Prop} {R' : α → α → Prop} (h : Blind w s r r' V R)
    (hV : ∀ k, V' k → V k) (hR : ∀ a a', R a a' → R' a a') : Blind w s r r' V' R' where
  grows := h.grows
  lower := fun k hk => h.lower k (hV k hk)
  upper := fun a s' hr k hk => h.upper a s' hr k (hV k hk)
  follows := by
    intro t ht hagree
    have hm := h.follows t ht fun k hlo hhi hk => hagree k hlo hhi fun hk' => hk (hV k hk')
    generalize r s = x, r' t = y at hm
    cases hm with
    | ok ha hst => exact .ok (hR _ _ ha) hst
    | error hst => exact .error hst

theorem within {V' : Nat → Prop} (h : Blind w s r r' V R) (hV : ∀ k, V' k → V k) :
    Blind w s r r' V' R :=
  h.mono hV fun _ _ h => h

theorem alike {R' : α → α → Prop} (h : Blind w s r r' V R) (hR : ∀ a a', R a a' → R' a a') :
    Blind w s r r' V R' :=
  h.mono (fun _ h => h) hR

/-- Places that are not read make no difference. -/
theorem extend {V' : Nat → Prop} (h : Blind w s r r' V R) (hlower : ∀ k, V' k → w.place s ≤ k)
    (hupper : ∀ a s', r s = .ok a s' → ∀ k, V' k → k < w.place s')
    (hV : ∀ k, k < w.stop (r s) → V' k → V k) : Blind w s r r' V' R where
  grows := h.grows
  lower := hlower
  upper := hupper
  follows := fun t ht hagree => h.follows t ht fun k hlo hhi hk =>
    hagree k hlo hhi fun hk' => hk (hV k hhi hk')

/-- Behind a reader that fails nothing is read. -/
theorem bind_failing {R' : β → β → Prop} {f f' : α → EStateM ReadError σ β} {e : ReadError}
    {s₁ : σ} (hr : Blind w s r r' V R) (hs : r s = .error e s₁) :
    Blind w s (r >>= f) (r' >>= f') V R' := by
  have hb : (r >>= f) s = .error e s₁ := bind_of_error hs
  refine ⟨?_, hr.lower, ?_, ?_⟩
  · rw [hb]
    have hg := hr.grows
    rwa [hs] at hg
  · intro b s' hok
    rw [hb] at hok
    cases hok
  · intro t ht hagree
    rw [hb] at hagree ⊢
    have hm := hr.follows t ht fun k hlo hhi => hagree k hlo (by rwa [hs] at hhi)
    rw [hs] at hm
    generalize hrt : r' t = y at hm
    cases hm with
    | error hst =>
      rw [bind_of_error hrt]
      exact .error hst

/-- Behind a reader that succeeds it is the next one that goes on. -/
theorem bind_succeeding {R' : β → β → Prop} {f f' : α → EStateM ReadError σ β} {a : α} {s₁ : σ}
    {T : Nat → Prop} (hr : Blind w s r r' V R) (hs : r s = .ok a s₁) (ha : R a a)
    (hf : ∀ a', R a a' → Blind w s₁ (f a) (f' a') T R') :
    Blind w s (r >>= f) (r' >>= f') (fun k => V k ∨ T k) R' := by
  have hb : (r >>= f) s = f a s₁ := bind_of_ok hs
  have hfa := hf a ha
  have hg := hr.grows
  rw [hs] at hg
  have hplace : w.place s ≤ w.place s₁ := hg
  refine ⟨?_, ?_, ?_, ?_⟩
  · rw [hb]
    exact Nat.le_trans hplace hfa.grows
  · rintro k (hk | hk)
    · exact hr.lower k hk
    · exact Nat.le_trans hplace (hfa.lower k hk)
  · intro b s' hok k hk
    rw [hb] at hok
    have hlater : w.place s₁ ≤ w.place s' := by
      have hg' := hfa.grows
      rwa [hok] at hg'
    rcases hk with hk | hk
    · exact Nat.lt_of_lt_of_le (hr.upper a s₁ hs k hk) hlater
    · exact hfa.upper b s' hok k hk
  · intro t ht hagree
    rw [hb] at hagree ⊢
    -- the first reader reads before all the places of the second one
    have hm := hr.follows t ht fun k hlo hhi hk => by
      rw [hs] at hhi
      have hhi' : k < w.place s₁ := hhi
      refine hagree k hlo (Nat.lt_of_lt_of_le hhi' hfa.grows) ?_
      rintro (hk' | hk')
      · exact hk hk'
      · exact Nat.not_lt.mpr (hfa.lower k hk') hhi'
    rw [hs] at hm
    generalize hrt : r' t = y at hm
    cases hm with
    | @ok _ a' _ t₁ ha' hst =>
      rw [bind_of_ok hrt]
      -- and the second one behind all the places of the first one
      refine (hf a' ha').follows t₁ hst fun k hlo hhi hk => ?_
      refine hagree k (Nat.le_trans hplace hlo) hhi ?_
      rintro (hk' | hk')
      · exact Nat.not_lt.mpr hlo (hr.upper a s₁ hs k hk')
      · exact hk hk'

/-- Readers in turn do not look at the places of each. -/
theorem bind {R' : β → β → Prop} {f f' : α → EStateM ReadError σ β} {T : α → σ → Nat → Prop}
    (hr : Blind w s r r' V R) (hR : ∀ a, R a a)
    (hf : ∀ a a' s', r s = .ok a s' → R a a' → Blind w s' (f a) (f' a') (T a s') R') :
    Blind w s (r >>= f) (r' >>= f') (fun k => V k ∨ Behind s r T k) R' := by
  cases hs : r s with
  | error e s₁ =>
    refine (hr.bind_failing hs).within fun k hk => ?_
    rcases hk with hk | ⟨a, s', hok, -⟩
    · exact hk
    · cases hs.symm.trans hok
  | ok a s₁ =>
    refine (hr.bind_succeeding hs (hR a) fun a' => hf a a' s₁ hs).within fun k hk => ?_
    rcases hk with hk | ⟨a', s', hok, hk⟩
    · exact .inl hk
    · cases hs.symm.trans hok
      exact .inr hk

/-- A reader whose value is changed by a function. -/
theorem map {R' : β → β → Prop} (h : Blind w s r r' V R) (hR : ∀ a, R a a) {f f' : α → β}
    (hf : ∀ a a', R a a' → R' (f a) (f' a')) :
    Blind w s (r >>= fun a => Pure.pure (f a)) (r' >>= fun a => Pure.pure (f' a)) V R' :=
  (h.bind (T := fun _ _ => nowhere) hR fun a a' _ _ ha => pure (hf a a' ha)).within fun _ => Or.inl

/-- Behind a reader that looks at everything. -/
theorem after {R' : β → β → Prop} {f f' : α → EStateM ReadError σ β} {T : α → σ → Nat → Prop}
    (hr : Blind w s r r' nowhere Eq)
    (hf : ∀ a s', r s = .ok a s' → Blind w s' (f a) (f' a) (T a s') R') :
    Blind w s (r >>= f) (r' >>= f') (Behind s r T) R' := by
  refine (hr.bind (T := T) (fun _ => rfl) ?_).within fun _ => Or.inr
  rintro a _ s' hs rfl
  exact hf a s' hs

/-- Readers in turn that look at everything. -/
theorem seq {R' : β → β → Prop} {f f' : α → EStateM ReadError σ β}
    (hr : Blind w s r r' nowhere Eq) (hf : ∀ a s', Blind w s' (f a) (f' a) nowhere R') :
    Blind w s (r >>= f) (r' >>= f') nowhere R' :=
  (hr.after (T := fun _ _ => nowhere) fun a s' _ => hf a s').within fun _ h => h.elim

end Blind

/-! ### Strings in memory -/

/-- Two inputs in memory, over `data` and over `data'`, that have handed out as many bytes. -/
structure Input.Abreast (data data' : Bytes) (i j : Input) : Prop where
  left : Input.Midway data i
  right : Input.Midway data' j
  consumed : i.consumed = j.consumed

/-- Two strings of the same length in memory. -/
def beside (data data' : Bytes) : SideBySide Input where
  place := Input.consumed
  near := Input.Abreast data data'
  agree k := data[k]? = data'[k]?

namespace Read

/-- A read that fails counts nothing. -/
theorem consumed_next_error {needed : Nat} {i i' : Input} {e : ReadError}
    (h : Read.next needed i = .error e i') : i'.consumed = i.consumed := by
  unfold Read.next at h
  split at h
  · cases h
  · split at h
    · cases h
      rfl
    · cases h
      rfl
    · cases h

theorem stop_next (needed : Nat) (i : Input) {data data' : Bytes} :
    i.consumed ≤ (beside data data').stop (Read.next needed i) := by
  unfold Read.next
  split
  · exact Nat.le_succ _
  · split
    · exact Nat.le_refl _
    · exact Nat.le_refl _
    · exact Nat.le_succ _

end Read

section

variable {data data' : Bytes}

/-- Inputs that are abreast hand out a byte each, or both reads are cut short. -/
theorem Input.Abreast.next (hlen : data.length = data'.length) {i j : Input}
    (h : Input.Abreast data data' i j) (needed : Nat) :
    (∃ b b' i' j', data[i.consumed]? = some b ∧ data'[i.consumed]? = some b' ∧
        Read.next needed i = .ok b i' ∧ Read.next needed j = .ok b' j' ∧
        Input.Abreast data data' i' j' ∧ i'.consumed = i.consumed + 1) ∨
      ∃ e i' j', Read.next needed i = .error e i' ∧ Read.next needed j = .error e j' ∧
        Input.Abreast data data' i' j' := by
  obtain ⟨hi, hj, hij⟩ := h
  rcases Read.next_of_midway hi needed with ⟨b, i', hb, hr, hi', hc⟩ | ⟨hend, i', hr, hi', hc⟩
  · rcases Read.next_of_midway hj needed with ⟨b', j', hb', hr', hj', hc'⟩ | ⟨hend', -⟩
    · exact .inl ⟨b, b', i', j', hb, hij ▸ hb', hr, hr', ⟨hi', hj', by omega⟩, hc⟩
    · have := (List.getElem?_eq_some_iff.mp hb).1
      omega
  · rcases Read.next_of_midway hj needed with ⟨b', j', hb', -⟩ | ⟨-, j', hr', hj', hc'⟩
    · have := (List.getElem?_eq_some_iff.mp hb').1
      omega
    · rw [← hij] at hr'
      exact .inr ⟨_, i', j', hr, hr', ⟨hi', hj', by omega⟩⟩

/-- A byte that is read and not looked at: whether there is one depends on the length alone. -/
theorem blind_next_any (hlen : data.length = data'.length) (needed : Nat) (i : Input) :
    Blind (beside data data') i (Read.next needed) (Read.next needed) (fun k => k = i.consumed)
      fun _ _ => True where
  grows := Read.stop_next needed i
  lower := by
    rintro k rfl
    exact Nat.le_refl _
  upper := by
    rintro b i' hr k rfl
    have := Read.consumed_next hr
    change i.consumed < i'.consumed
    omega
  follows := by
    intro j hij _
    rcases hij.next hlen needed with ⟨b, b', i', j', -, -, hr, hr', hij', -⟩ |
      ⟨e, i', j', hr, hr', hij'⟩
    · rw [hr, hr']
      exact .ok trivial hij'
    · rw [hr, hr']
      exact .error hij'

/-- A byte that is looked at. -/
theorem blind_next (hlen : data.length = data'.length) (needed : Nat) (i : Input) :
    Blind (beside data data') i (Read.next needed) (Read.next needed) nowhere Eq where
  grows := Read.stop_next needed i
  lower := by rintro k ⟨⟩
  upper := by rintro _ _ _ k ⟨⟩
  follows := by
    intro j hij hagree
    rcases hij.next hlen needed with ⟨b, b', i', j', hb, hb', hr, hr', hij', hc⟩ |
      ⟨e, i', j', hr, hr', hij'⟩
    · rw [hr] at hagree ⊢
      rw [hr']
      have hsame : data[i.consumed]? = data'[i.consumed]? :=
        hagree i.consumed (Nat.le_refl _) (by change i.consumed < i'.consumed; omega) id
      rw [hb, hb', Option.some.injEq] at hsame
      exact .ok hsame hij'
    · rw [hr, hr']
      exact .error hij'

/-- **A bytewise reader is blind to nothing.** -/
theorem Bytewise.blind (hlen : data.length = data'.length) {r : Read α} (h : Bytewise r)
    (i : Input) : Blind (beside data data') i r r nowhere Eq := by
  induction h generalizing i with
  | pure a => exact .pure rfl
  | throw _ => exact .throw _
  | next needed => exact blind_next hlen needed i
  | bind _ _ ihr ihf => exact (ihr i).seq ihf

/-! ### Strings that are stored raw -/

namespace Read

theorem consumed_bytesInto {n : Nat} {done bs : Bytes} {i i' : Input}
    (h : collectInto Read.next n done i = .ok bs i') : i'.consumed = i.consumed + n := by
  induction n generalizing done i with
  | zero =>
    cases h
    rfl
  | succ n ih =>
    rw [collectInto_succ] at h
    obtain ⟨b, i₁, hb, hrest⟩ := bind_eq_ok h
    have hfirst := Read.consumed_next hb
    have hlast := ih hrest
    omega

/-- The bytes of a string are counted and not looked at. -/
theorem blind_bytesInto (hlen : data.length = data'.length) (n : Nat) {done done' : Bytes}
    (hdone : done.length = done'.length) (i : Input) :
    Blind (beside data data') i (collectInto Read.next n done) (collectInto Read.next n done')
      (fun k => i.consumed ≤ k ∧ k < i.consumed + n) fun bs bs' => bs.length = bs'.length := by
  induction n generalizing done done' i with
  | zero =>
    have hdone' : Blind (beside data data') i (Pure.pure done.reverse) (Pure.pure done'.reverse)
        nowhere fun bs bs' => bs.length = bs'.length := .pure (by simpa using hdone)
    refine hdone'.within ?_
    rintro k ⟨hlo, hhi⟩
    omega
  | succ n ih =>
    have hmore (b b' : UInt8) : (b :: done).length = (b' :: done').length := by simpa using hdone
    rw [collectInto_succ, collectInto_succ]
    refine ((blind_next_any hlen (n + 1) i).bind (fun _ => trivial)
      fun b b' i' _ _ => ih (hmore b b') i').extend (fun k hk => hk.1) (fun bs i' hr k hk => ?_)
      fun k hstop hk => ?_
    · rw [← collectInto_succ] at hr
      have := consumed_bytesInto hr
      change k < i'.consumed
      omega
    · by_cases hki : k = i.consumed
      · exact .inl hki
      · -- behind the first byte, which is there because `k` is read
        cases hr : Read.next (n + 1) i with
        | ok b i' =>
          have := Read.consumed_next hr
          exact .inr ⟨b, i', hr, by omega, by omega⟩
        | error e i' =>
          rw [bind_of_error hr] at hstop
          have := consumed_next_error hr
          change k < i'.consumed at hstop
          omega

theorem blind_bytes (hlen : data.length = data'.length) (n : Nat) (i : Input) :
    Blind (beside data data') i (bytes n) (bytes n)
      (fun k => i.consumed ≤ k ∧ k < i.consumed + n) fun bs bs' => bs.length = bs'.length :=
  blind_bytesInto hlen n rfl i

/-- The places of the bytes of a string of a declared length, if that is not above the limit. -/
def rawPlaces (limit : Int) (n : Nat) (i : Input) (k : Nat) : Prop :=
  (n : Int) ≤ limit ∧ i.consumed ≤ k ∧ k < i.consumed + n

/-- The places of the bytes of a string, if it is stored raw. -/
def textPlaces (limit : Int) (i : Input) : Nat → Prop :=
  Behind i byte fun b i =>
    if b.toNat / 64 = 3 then nowhere else Behind i (lengthFrom b) (rawPlaces limit)

/-- The places that counted readers do not look at, each of its own. -/
def collectPlaces {α : Type} (item : Nat → Read α) (places : Input → Nat → Prop) :
    Nat → Input → Nat → Prop
  | 0, _ => nowhere
  | n + 1, i => fun k =>
    places i k ∨ Behind i (item (n + 1)) (fun _ => collectPlaces item places n) k

theorem blind_rawText (hlen : data.length = data'.length) (limit : Int) (n : Nat) (i : Input) :
    Blind (beside data data') i (rawText limit n) (rawText limit n) (rawPlaces limit n i)
      fun bs bs' => bs.length = bs'.length := by
  unfold rawText checkTextLength
  split
  · rename_i hn
    refine (Blind.throw (.tooLarge (.ofText limit n))).within ?_
    rintro k ⟨hle, -⟩
    omega
  · exact (blind_bytes hlen n i).within fun k hk => hk.2

/-- **A string that is stored raw is not looked at.** -/
theorem blind_text (hlen : data.length = data'.length) (limit : Int) (i : Input) :
    Blind (beside data data') i (text limit) (text limit) (textPlaces limit i)
      fun bs bs' => bs.length = bs'.length := by
  rw [text_eq]
  refine (Bytewise.byte.blind hlen i).after fun b i' _ => ?_
  split
  · exact ((Bytewise.specialText limit _).blind hlen i').alike fun _ _ h => congrArg List.length h
  · exact ((Bytewise.lengthFrom b).blind hlen i').after fun n i'' _ =>
      blind_rawText hlen limit n i''

theorem blind_collectInto {α γ : Type} {f : α → γ} {item : Nat → Read α}
    {places : Input → Nat → Prop}
    (h : ∀ k i, Blind (beside data data') i (item k) (item k) (places i) fun a a' => f a = f a')
    (n : Nat) {done done' : List α} (hdone : done.map f = done'.map f) (i : Input) :
    Blind (beside data data') i (collectInto item n done) (collectInto item n done')
      (collectPlaces item places n i) fun as as' => as.map f = as'.map f := by
  induction n generalizing done done' i with
  | zero =>
    refine Blind.pure ?_
    rw [List.map_reverse, List.map_reverse, hdone]
  | succ n ih =>
    rw [collectInto_succ, collectInto_succ]
    exact (h (n + 1) i).bind (fun _ => rfl) fun a a' i' _ ha => ih (by simp [ha, hdone]) i'

/-- Counted readers are blind to the places of each. -/
theorem blind_collect {α γ : Type} {f : α → γ} {item : Nat → Read α} {places : Input → Nat → Prop}
    (h : ∀ k i, Blind (beside data data') i (item k) (item k) (places i) fun a a' => f a = f a')
    (n : Nat) (i : Input) : Blind (beside data data') i (collect item n) (collect item n)
      (collectPlaces item places n i) fun as as' => as.map f = as'.map f :=
  blind_collectInto h n rfl i

end Read

end

end RedisDump
