import RedisDump.Proofs.Lzf.Exactness
import RedisDump.Proofs.Wire.Text

/-!
# The sizes of a payload

An expansion looks at no further byte once its output is full, so a payload may have more than one
size: one wherever a token ends. Token lists do not diverge within a payload
(`Leaves.exists_tokens`), so of two sizes the greater one takes more of the payload, and writes more
behind the same bytes.
Only the greatest size may take the whole payload, and it does when the payload is the bytes of
tokens and of nothing else (`sizes_exact`).
-/

namespace RedisDump.Lzf

variable {t u : Token} {ts us : List Token} {out out' : Bytes}

/-! ### Tokens in turn -/

/-- The bytes of a token do not start with those of another one. -/
theorem Token.eq_of_bytes_append {x y : Bytes} (ht : t.Legal) (hu : u.Legal)
    (h : t.bytes ++ x = u.bytes ++ y) : t = u ∧ x = y := by
  obtain ⟨control, src, hbytes⟩ := t.exists_bytes
  have hsrc : control :: (src ++ x) = t.bytes ++ x := by
    rw [hbytes, List.cons_append]
  have hread := readToken_bytes ht 0 hsrc
  rw [readToken_bytes hu 0 (hsrc.trans h)] at hread
  cases hread
  exact ⟨rfl, rfl⟩

/-- Of two token lists at the start of a payload, one goes on from where the other one ends. -/
theorem exists_encode_append {x y : Bytes} (hts : ∀ t ∈ ts, t.Legal) (hus : ∀ u ∈ us, u.Legal)
    (h : encode ts ++ x = encode us ++ y) (hle : y.length ≤ x.length) :
    ∃ vs, us = ts ++ vs ∧ x = encode vs ++ y := by
  induction ts generalizing us with
  | nil => exact ⟨us, rfl, h⟩
  | cons t ts ih =>
    obtain ⟨ht, hts⟩ := List.forall_mem_cons.mp hts
    cases us with
    | nil =>
      obtain ⟨control, src, hbytes⟩ := t.exists_bytes
      have hlength : (encode (t :: ts) ++ x).length = y.length := congrArg List.length h
      rw [encode_cons, hbytes, List.length_append, List.length_append, List.length_cons] at hlength
      omega
    | cons u us =>
      obtain ⟨hu, hmore⟩ := List.forall_mem_cons.mp hus
      rw [encode_cons, encode_cons, List.append_assoc, List.append_assoc] at h
      obtain ⟨rfl, hrest⟩ := Token.eq_of_bytes_append ht hu h
      obtain ⟨vs, rfl, hx⟩ := ih hts hmore hrest
      exact ⟨vs, rfl, hx⟩

theorem writes_append_iff :
    Writes (ts ++ us) out out' ↔ ∃ mid, Writes ts out mid ∧ Writes us mid out' := by
  induction ts generalizing out with
  | nil => simp only [List.nil_append, writes_nil_iff, exists_eq_left]
  | cons t ts ih =>
    simp only [List.cons_append, writes_cons_iff, ih]
    constructor
    · rintro ⟨first, ht, mid, hts, hus⟩
      exact ⟨mid, ⟨first, ht, hts⟩, hus⟩
    · rintro ⟨mid, ⟨first, ht, hts⟩, hus⟩
      exact ⟨first, ht, mid, hts, hus⟩

theorem Token.Writes.eq {mid mid' : Bytes} (ht : t.Legal) (h : t.Writes out mid)
    (h' : t.Writes out mid') : mid = mid' := by
  cases ht with
  | literal =>
    cases h
    cases h'
    rfl
  | copy hpos =>
    rw [Token.writes_copy_iff hpos] at h h'
    rw [h.2, h'.2]

/-- Tokens write one output only. -/
theorem Writes.eq {after after' : Bytes} (hts : ∀ t ∈ ts, t.Legal) (h : Writes ts out after)
    (h' : Writes ts out after') : after = after' := by
  induction h with
  | nil => exact (writes_nil_iff.mp h').symm
  | cons ht _ ih =>
    obtain ⟨hlegal, hts⟩ := List.forall_mem_cons.mp hts
    obtain ⟨mid, ht', h'⟩ := writes_cons_iff.mp h'
    cases ht.eq hlegal ht'
    exact ih hts h'

/-- Tokens write behind what is there. -/
theorem Writes.prefix_out (h : Writes ts out out') : out <+: out' := by
  induction h with
  | nil => exact List.prefix_rfl
  | cons ht _ ih =>
    refine List.IsPrefix.trans ?_ ih
    cases ht with
    | literal => exact List.prefix_append ..
    | copy => exact List.prefix_append ..

theorem Writes.length_lt (hts : ∀ t ∈ ts, t.Legal) (hne : ts ≠ []) (h : Writes ts out out') :
    out.length < out'.length := by
  obtain ⟨t, ts, rfl⟩ := List.exists_cons_of_ne_nil hne
  obtain ⟨ht, hts⟩ := List.forall_mem_cons.mp hts
  obtain ⟨mid, hwt, hw⟩ := writes_cons_iff.mp h
  exact Nat.lt_of_lt_of_le (hwt.length_lt ht) (hw.length_le hts)

/-! ### What is left of a payload -/

/-- Tokens at the start of the payload write `out` and leave `rest` of it. -/
def Leaves (payload out rest : Bytes) : Prop :=
  ∃ ts, (∀ t ∈ ts, t.Legal) ∧ payload = encode ts ++ rest ∧ Writes ts [] out

theorem opens_iff {payload : Bytes} : Opens payload out ↔ ∃ rest, Leaves payload out rest :=
  exists_comm

variable {payload rest rest' : Bytes}

/-- The payload that is left contains the tokens with which another output goes on. -/
theorem Leaves.exists_tokens (h : Leaves payload out rest) (h' : Leaves payload out' rest')
    (hle : rest'.length ≤ rest.length) :
    ∃ vs, (∀ v ∈ vs, v.Legal) ∧ rest = encode vs ++ rest' ∧ Writes vs out out' := by
  obtain ⟨ts, hts, rfl, hw⟩ := h
  obtain ⟨us, hus, hbytes, hw'⟩ := h'
  obtain ⟨vs, rfl, hrest⟩ := exists_encode_append hts hus hbytes hle
  obtain ⟨mid, hmid, hvs⟩ := writes_append_iff.mp hw'
  cases hw.eq hts hmid
  exact ⟨vs, fun v hv => hus v (List.mem_append_right ts hv), hrest, hvs⟩

/-- The greater output leaves less of the payload. -/
theorem Leaves.length_lt_iff (h : Leaves payload out rest) (h' : Leaves payload out' rest') :
    out.length < out'.length ↔ rest'.length < rest.length := by
  constructor
  · intro hlt
    refine Nat.lt_of_not_le fun hge => ?_
    obtain ⟨vs, hvs, -, hw⟩ := h'.exists_tokens h hge
    exact absurd (hw.length_le hvs) (Nat.not_le_of_lt hlt)
  · intro hlt
    obtain ⟨vs, hvs, hrest, hw⟩ := h.exists_tokens h' (Nat.le_of_lt hlt)
    refine hw.length_lt hvs ?_
    rintro rfl
    rw [hrest] at hlt
    exact Nat.lt_irrefl _ hlt

/-- The greater output goes on from where the other one ends, and what it leaves is the end of what
the other one leaves. -/
theorem Leaves.prefix_of_le (h : Leaves payload out rest) (h' : Leaves payload out' rest')
    (hle : out.length ≤ out'.length) : out <+: out' ∧ rest' <:+ rest := by
  have hrest : rest'.length ≤ rest.length :=
    Nat.le_of_not_lt fun hlt => absurd ((h'.length_lt_iff h).mpr hlt) (Nat.not_lt_of_le hle)
  obtain ⟨vs, -, rfl, hw⟩ := h.exists_tokens h' hrest
  exact ⟨hw.prefix_out, List.suffix_append ..⟩

/-- An output that takes the whole payload is the greatest one. -/
theorem Leaves.eq_or_lt {whole : Bytes} (hwhole : Leaves payload whole [])
    (h : Leaves payload out rest) :
    out = whole ∨ out.length < whole.length ∧ out <+: whole ∧ rest ≠ [] := by
  have hle : out.length ≤ whole.length :=
    Nat.le_of_not_lt fun hlt => Nat.not_lt_zero _ ((hwhole.length_lt_iff h).mp hlt)
  obtain ⟨hout, -⟩ := h.prefix_of_le hwhole hle
  by_cases heq : out.length = whole.length
  · exact .inl (hout.eq_of_length heq)
  · have hlt := Nat.lt_of_le_of_ne hle heq
    have hrest := (h.length_lt_iff hwhole).mp hlt
    exact .inr ⟨hlt, hout, List.ne_nil_of_length_pos hrest⟩

theorem Leaves.append (h : Leaves payload out rest) (more : Bytes) :
    Leaves (payload ++ more) out (rest ++ more) := by
  obtain ⟨ts, hts, rfl, hw⟩ := h
  exact ⟨ts, hts, List.append_assoc .., hw⟩

variable {room : Room}

theorem decompressTo_iff_leaves {size : Nat} :
    decompressTo size payload room = .ok out ↔
      room.Holds size ∧ out.length = size ∧ ∃ rest, Leaves payload out rest := by
  rw [decompressTo_iff, opens_iff, and_comm (b := out.length = size)]

/-- What follows the tokens that fill the output is not looked at. -/
theorem decompressTo_append {size : Nat} (h : decompressTo size payload room = .ok out)
    (more : Bytes) : decompressTo size (payload ++ more) room = .ok out := by
  obtain ⟨hroom, hlength, rest, hleaves⟩ := decompressTo_iff_leaves.mp h
  exact decompressTo_iff_leaves.mpr ⟨hroom, hlength, _, hleaves.append more⟩

/-! ### Compressed strings -/

/-- How a compressed string ends whose payload has come to this answer. -/
def ending (i : Input) : Except Refusal Bytes → EStateM.Result ReadError Input Bytes
  | .ok expanded => .ok expanded i
  | .error e => .error (.payload e) i

/-- A compressed string whose lengths are within the limit is what its payload expands to, or is
refused as its payload is. -/
theorem compressedText_of_holds {limit : Int} {size n : Nat} {packed declared : Bytes} {i : Input}
    (hsize : (size : Int) ≤ limit) (hpayload : (payload.length : Int) ≤ limit)
    (hpacked : Wire.Length payload.length packed) (hdeclared : Wire.Length size declared)
    (h : Input.Holds (packed ++ (declared ++ payload) ++ rest) n i) :
    ∃ i', Input.Holds rest (n + (packed ++ (declared ++ payload)).length) i' ∧
      Read.compressedText limit i = ending i' (decompressTo size payload) := by
  rw [List.append_assoc, List.append_assoc] at h
  obtain ⟨i₁, h₁, hi₁⟩ := hpacked.reads _ n i h
  obtain ⟨i₂, h₂, hi₂⟩ := hdeclared.reads _ _ i₁ hi₁
  obtain ⟨i₃, h₃, hi₃⟩ : ∃ i₃, Read.checkTextLength limit size i₂ = .ok () i₃ ∧ _ :=
    (Wire.checkTextLength_recognises limit size).reads ⟨hsize, rfl⟩ _ _ i₂ hi₂
  obtain ⟨i', h₄, hi'⟩ :=
    (Wire.rawText_recognises limit payload.length).reads ⟨rfl, rfl, hpayload⟩ _ _ i₃ hi₃
  refine ⟨i', ?_, ?_⟩
  · rw [List.length_append, List.length_append, ← Nat.add_assoc, ← Nat.add_assoc]
    exact hi'
  · rw [Read.compressedText, bind_of_ok h₁, bind_of_ok h₂, bind_of_ok h₃, bind_of_ok h₄]
    cases decompressTo size payload with
    | ok expanded => rfl
    | error e => rfl

/-! ### Sizes -/

/-- **A payload has one size when it is taken whole, and none other but where its tokens end.**
An expansion is accepted exactly for the sizes of what tokens at the start of the payload write,
and with room for the size refused as malformed for every other one. Of two accepted sizes the
greater one leaves less of the payload, and gives the same bytes and more. So at most one takes the
whole payload; then every other one is smaller and leaves some of it, whatever may be there. With a
size every smaller one at which tokens end is accepted. A compressed string in a snapshot is what
its payload expands to for the declared size, or refused. -/
theorem sizes_exact (room : Room) (payload : Bytes) :
    (∀ (size : Nat) out, decompressTo size payload room = .ok out ↔
      room.Holds size ∧ out.length = size ∧ ∃ rest, Leaves payload out rest) ∧
    (∀ size : Nat, room.Holds size →
      (∀ out rest, Leaves payload out rest → out.length ≠ size) →
        ∃ e, decompressTo size payload room = .error (.malformed e)) ∧
    (∀ out rest out' rest', Leaves payload out rest → Leaves payload out' rest' →
      (out.length < out'.length ↔ rest'.length < rest.length) ∧
        (out.length ≤ out'.length → out <+: out' ∧ rest' <:+ rest)) ∧
    (∀ whole, Leaves payload whole [] → ∀ (size : Nat) out,
      decompressTo size payload room = .ok out →
        size = whole.length ∧ out = whole ∨
          size < whole.length ∧ out <+: whole ∧ ∃ rest, rest ≠ [] ∧ Leaves payload out rest) ∧
    (∀ (size : Nat) out more, decompressTo size payload room = .ok out →
      decompressTo size (payload ++ more) room = .ok out) ∧
    (∀ (size : Nat) out out' rest', decompressTo size payload room = .ok out →
      Leaves payload out' rest' → out'.length ≤ size →
        decompressTo out'.length payload room = .ok out') ∧
    ∀ (limit : Int) (size n : Nat) packed declared rest i, (size : Int) ≤ limit →
      (payload.length : Int) ≤ limit → Wire.Length payload.length packed →
      Wire.Length size declared →
      Input.Holds (packed ++ (declared ++ payload) ++ rest) n i →
        ∃ i', Input.Holds rest (n + (packed ++ (declared ++ payload)).length) i' ∧
          Read.compressedText limit i = ending i' (decompressTo size payload) := by
  refine ⟨fun size out => decompressTo_iff_leaves, fun size hroom hnone => ?_,
    fun out rest out' rest' h h' => ⟨h.length_lt_iff h', h.prefix_of_le h'⟩,
    fun whole hwhole size out h => ?_, fun size out more h => decompressTo_append h more,
    fun size out out' rest' h hleaves hle => ?_,
    fun limit size n packed declared rest i hsize hpayload hpacked hdeclared h =>
      compressedText_of_holds hsize hpayload hpacked hdeclared h⟩
  · refine exists_malformed hroom fun out h => ?_
    obtain ⟨-, hlength, rest, hleaves⟩ := decompressTo_iff_leaves.mp h
    exact hnone out rest hleaves hlength
  · obtain ⟨-, rfl, rest, hleaves⟩ := decompressTo_iff_leaves.mp h
    obtain rfl | ⟨hlt, hout, hrest⟩ := hwhole.eq_or_lt hleaves
    · exact .inl ⟨rfl, rfl⟩
    · exact .inr ⟨hlt, hout, rest, hrest, hleaves⟩
  · obtain ⟨hroom, -, -⟩ := decompressTo_iff_leaves.mp h
    exact decompressTo_iff_leaves.mpr ⟨hroom.of_le hle, rfl, rest', hleaves⟩

/-- Two runs of a byte each, which are the whole payload for the size 2, and of which the second one
is left for the size 1. -/
theorem sizes_exact_runs :
    Leaves [0, 97, 0, 98] [97, 98] [] ∧
      decompressTo (1 : Nat) [0, 97, 0, 98] (.below 2) = .ok [97] ∧
      (∃ rest, rest ≠ [] ∧ Leaves [0, 97, 0, 98] [97] rest) ∧
      decompressTo (1 : Nat) [0, 97, 0, 98, 0, 99] (.below 2) = .ok [97] := by
  have hrun (b : UInt8) : (Token.literal [b]).Legal :=
    .literal (Nat.le_refl 1) (show 1 ≤ 32 by decide)
  have hone : Leaves [0, 97, 0, 98] [97] [0, 98] :=
    ⟨[.literal [97]], List.forall_mem_singleton.mpr (hrun 97), rfl,
      .cons (.literal [97] []) (.nil _)⟩
  have htwo : Leaves [0, 97, 0, 98] [97, 98] [] :=
    ⟨[.literal [97], .literal [98]],
      List.forall_mem_cons.mpr ⟨hrun 97, List.forall_mem_singleton.mpr (hrun 98)⟩, rfl,
      .cons (.literal [97] []) (.cons (.literal [98] [97]) (.nil _))⟩
  obtain ⟨haccepted, -, -, hwhole, hmore, -⟩ := sizes_exact (.below 2) [0, 97, 0, 98]
  have h : decompressTo (1 : Nat) [0, 97, 0, 98] (.below 2) = .ok [97] :=
    (haccepted 1 [97]).mpr ⟨by decide, rfl, _, hone⟩
  obtain ⟨hlength, -⟩ | ⟨-, -, hrest⟩ := hwhole [97, 98] htwo 1 [97] h
  · exact absurd hlength (by decide)
  · exact ⟨htwo, h, hrest, hmore 1 [97] [0, 99] h⟩

/-- A payload of two runs has a size behind each of them. -/
theorem exists_two_sizes :
    ¬ ∀ (payload : Bytes) (size size' : Nat) out out', decompressTo size payload = .ok out →
      decompressTo size' payload = .ok out' → size = size' := by
  intro h
  have hone : decompressTo (1 : Nat) [0, 97, 0, 98] = .ok [97] := by
    have hd : decompress [0, 97, 0, 98] 1 = .ok [97] := by cbv
    rw [decompressTo_of_holds (by decide), hd]
    rfl
  have htwo : decompressTo (2 : Nat) [0, 97, 0, 98] = .ok [97, 98] := by
    have hd : decompress [0, 97, 0, 98] 2 = .ok [97, 98] := by cbv
    rw [decompressTo_of_holds (by decide), hd]
    rfl
  exact absurd (h _ 1 2 _ _ hone htwo) (by decide)

end RedisDump.Lzf
