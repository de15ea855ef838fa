import RedisDump.Proofs.Lzf.Exactness

/-!
# Expansion in a buffer

An expansion takes room for its whole output before it reads a token, and carries the tokens out in
place: one offset says how much of the payload has been read, another how much of the buffer has
been filled, and bytes are looked up and stored by their offsets. Here this is done with every
offset checked (`Buffered.step`). Whatever the payload, no offset is outside, the loop ends before
it has turned more often than the payload has bytes, and its answer is that of the expansion that
appends to its output (`Buffered.turns_start`).
-/

namespace RedisDump.Lzf.Buffered

/-! ### The loop -/

/-- An expansion at work. -/
structure Work where
  /-- How many bytes of the payload have been read. -/
  taken : Nat
  /-- How many bytes of the buffer have been filled. -/
  filled : Nat
  /-- The room for the output, of which the rest is still to be filled. -/
  buffer : Bytes

/-- What a turn of the loop leads to. -/
inductive Progress where
  | running (w : Work)
  | done (answer : Except Error Bytes)

/-- The bytes from an offset on, if there are as many. -/
def slice? (bs : Bytes) (start length : Nat) : Option Bytes :=
  if start + length ≤ bs.length then some ((bs.drop start).take length) else none

/-- Stores bytes from an offset on, if there is room for them. -/
def store? (buffer : Bytes) (start : Nat) (bs : Bytes) : Option Bytes :=
  if start + bs.length ≤ buffer.length then
    some (buffer.take start ++ (bs ++ buffer.drop (start + bs.length)))
  else none

/-- Copies bytes one by one from one place of the buffer to another. -/
def copy? : (length source target : Nat) → Bytes → Option Bytes
  | 0, _, _, buffer => some buffer
  | length + 1, source, target, buffer => do
    let b ← buffer[source]?
    let buffer ← store? buffer target [b]
    copy? length (source + 1) (target + 1) buffer

/-- Carries out a literal run whose bytes stand in the payload from `start` on. -/
def literal (payload : Bytes) (size : Nat) (w : Work) (start length : Nat) : Option Progress :=
  if payload.length < start + length then
    return .done (.error (.runOverInput length start))
  else if size < w.filled + length then
    return .done (.error (.runOverOutput length w.filled))
  else do
    let run ← slice? payload start length
    let buffer ← store? w.buffer w.filled run
    return .running { taken := start + length, filled := w.filled + length, buffer }

/-- Carries out a copy whose distance has its low byte in the payload at `start`. -/
def copyBack (payload : Bytes) (size : Nat) (w : Work) (start high length : Nat) :
    Option Progress :=
  if payload.length ≤ start then return .done (.error .noCopyDistance)
  else do
    let distance := high * 256 + (← payload[start]?).toNat + 1
    if w.filled < distance then
      return .done (.error (.copyBeforeStart (distance - w.filled)))
    else if size < w.filled + length then
      return .done (.error (.copyOverOutput length w.filled))
    else
      let buffer ← copy? length (w.filled - distance) w.filled w.buffer
      return .running { taken := start + 1, filled := w.filled + length, buffer }

/-- A turn of the loop; there is none that looks outside the payload or the buffer. -/
def step (payload : Bytes) (size : Nat) (w : Work) : Option Progress :=
  if size ≤ w.filled then return .done (.ok w.buffer)
  else if payload.length ≤ w.taken then
    return .done (.error (.exhausted w.filled size))
  else do
    let c := (← payload[w.taken]?).toNat
    if c < literalLimit then literal payload size w (w.taken + 1) (c + 1)
    else if c / 32 = longCopy then
      if payload.length ≤ w.taken + 1 then return .done (.error .noCopyLength)
      else
        let field := longCopy + (← payload[w.taken + 1]?).toNat
        copyBack payload size w (w.taken + 2) (c % 32) (field + 2)
    else copyBack payload size w (w.taken + 1) (c % 32) (c / 32 + 2)

/-- A number of turns, or fewer when there is an answer before. -/
def turns (payload : Bytes) (size : Nat) : Nat → Work → Option Progress
  | 0, w => some (.running w)
  | n + 1, w =>
    match step payload size w with
    | some (.running w) => turns payload size n w
    | some (.done answer) => some (.done answer)
    | none => none

/-- Nothing has been read, and the whole buffer is free. -/
def start (size : Nat) : Work :=
  { taken := 0, filled := 0, buffer := List.replicate size 0 }

/-! ### Checked offsets -/

theorem slice?_of_le {bs : Bytes} {start length : Nat} (h : start + length ≤ bs.length) :
    slice? bs start length = some ((bs.drop start).take length) :=
  if_pos h

/-- Bytes are stored behind those that are there already. -/
theorem store?_append (out : Bytes) {free bs : Bytes} (h : bs.length ≤ free.length) :
    store? (out ++ free) out.length bs = some (out ++ (bs ++ free.drop bs.length)) := by
  rw [store?, if_pos (by rw [List.length_append]; omega), List.take_left,
    List.drop_length_add_append]

/-- Copying within the buffer writes behind `out` what a copy of that distance does. -/
theorem copy?_append {distance length : Nat} (out : Bytes) {free : Bytes} (hpos : 0 < distance)
    (hd : distance ≤ out.length) (h : length ≤ free.length) :
    copy? length (out.length - distance) out.length (out ++ free) =
      some (out ++ (cycle distance length out ++ free.drop length)) := by
  induction length generalizing out free with
  | zero => rfl
  | succ length ih =>
    -- one byte moves the border between `out` and the free part by one place
    obtain ⟨next, free, rfl⟩ := List.exists_cons_of_length_pos (show 0 < free.length by omega)
    have hb : (out ++ next :: free)[out.length - distance]? =
        some (out.getD (out.length - distance) 0) := by
      rw [List.getElem?_append_left (by omega), getElem?_back hpos hd]
    generalize hnext : out.getD (out.length - distance) 0 = b at hb
    have hstore : store? (out ++ next :: free) out.length [b] = some (out ++ [b] ++ free) := by
      have hroom : [b].length ≤ (next :: free).length := Nat.succ_le_succ (Nat.zero_le _)
      rw [store?_append out hroom, List.append_assoc]
      rfl
    have hlength : (out ++ [b]).length = out.length + 1 := List.length_append
    have hrest := ih (out ++ [b]) (by omega) (Nat.le_of_succ_le_succ h)
    rw [hlength, show out.length + 1 - distance = out.length - distance + 1 by omega] at hrest
    simp only [copy?, hb, hstore, Option.bind_eq_bind, Option.bind_some, hrest]
    rw [cycle_succ hpos hd, hnext, List.drop_succ_cons, List.append_assoc]
    rfl

/-- The first of the bytes from an offset on, and those behind it. -/
theorem drop_eq_cons {bs rest : Bytes} {b : UInt8} {start : Nat} (h : bs.drop start = b :: rest) :
    start < bs.length ∧ bs[start]? = some b ∧ bs.drop (start + 1) = rest := by
  have hb : bs[start]? = some b := by
    rw [← List.head?_drop, h]
    rfl
  refine ⟨(List.getElem?_eq_some_iff.mp hb).1, hb, ?_⟩
  rw [← List.tail_drop, h, List.tail_cons]

/-! ### A turn -/

/-- The work at hand when `offset` bytes of the payload have been read and the output is `out`. -/
def work (size offset : Nat) (out : Array UInt8) : Work :=
  { taken := offset, filled := out.size
    buffer := out.toList ++ List.replicate (size - out.size) 0 }

/-- What a token leads to that has been read from the payload up to `offset`. -/
def applied (size offset : Nat) (out : Array UInt8) (t : Token) : Progress :=
  match t.apply size out with
  | .error e => .done (.error e)
  | .ok out' => .running (work size offset out')

/-- What reading a token from `offset` on leads to. -/
def afterRead (size offset : Nat) (out : Array UInt8) : Except Error (Token × Bytes) → Progress
  | .error e => .done (.error e)
  | .ok (t, _) => applied size (offset + t.width) out t

variable {payload src : Bytes} {size offset : Nat} {out : Array UInt8}

@[simp] theorem taken_work : (work size offset out).taken = offset :=
  rfl

@[simp] theorem filled_work : (work size offset out).filled = out.size :=
  rfl

/-- The free part of the buffer takes what the size leaves room for. -/
theorem length_free {n : Nat} (h : ¬ size < out.size + n) :
    n ≤ (List.replicate (size - out.size) (0 : UInt8)).length := by
  rw [List.length_replicate]
  omega

theorem literal_work {start length : Nat} (h : start + length ≤ payload.length) :
    literal payload size (work size offset out) start length =
      some (applied size (start + length) out (.literal ((payload.drop start).take length))) := by
  have hrun : ((payload.drop start).take length).length = length := by
    rw [List.length_take, List.length_drop]
    omega
  simp only [literal, filled_work, applied, Token.apply, hrun, slice?_of_le h,
    if_neg (Nat.not_lt.mpr h)]
  split
  · rfl
  · rename_i hroom
    have hstore := store?_append out.toList (Nat.le_trans (Nat.le_of_eq hrun) (length_free hroom))
    rw [Array.length_toList] at hstore
    simp only [work, Option.bind_eq_bind, Option.bind_some, hstore, Option.pure_def]
    rw [size_appendRun, toList_appendRun, hrun, List.drop_replicate, List.append_assoc,
      Nat.sub_sub]

theorem copyBack_work {start control field : Nat} (hsrc : payload.drop start = src)
    (hwidth : offset + (if field < longCopy then 2 else 3) = start + 1) :
    copyBack payload size (work size offset out) start (control % 32) (field + 2) =
      some (afterRead size offset out (copyToken control field src)) := by
  cases src with
  | nil => rw [copyBack, if_pos (List.drop_eq_nil_iff.mp hsrc)]; rfl
  | cons low rest =>
    obtain ⟨hstart, hlow, -⟩ := drop_eq_cons hsrc
    simp only [copyBack, filled_work, hlow, if_neg (Nat.not_le.mpr hstart), copyToken, afterRead,
      Token.width, Nat.add_lt_add_iff_right, hwidth, applied, Token.apply, Option.bind_eq_bind,
      Option.bind_some]
    obtain ⟨far, hfar⟩ : ∃ far, far = control % 32 * 256 + low.toNat := ⟨_, rfl⟩
    rw [← hfar]
    by_cases hd : out.size < far + 1
    · simp only [hd, if_true, Option.pure_def]
    by_cases hroom : size < out.size + (field + 2)
    · simp only [hd, hroom, if_true, if_false, Option.pure_def]
    have hcopy := copy?_append out.toList (Nat.succ_pos far)
      (by rw [Array.length_toList]; omega) (length_free hroom)
    rw [Array.length_toList] at hcopy
    simp only [work, hd, hroom, if_false, Option.bind_some, hcopy, Option.pure_def]
    rw [size_appendCopy, toList_appendCopy (Nat.succ_pos far) _ (by omega),
      List.drop_replicate, List.append_assoc, Nat.sub_sub]

/-- What remains to be read of the payload decides what a turn does. -/
theorem step_work {control : UInt8} (hlt : out.size < size)
    (hsrc : payload.drop offset = control :: src) :
    step payload size (work size offset out) =
      some (afterRead size offset out (readToken control (offset + 1) src)) := by
  obtain ⟨hoffset, hcontrol, hrest⟩ := drop_eq_cons hsrc
  have hlength : src.length = payload.length - (offset + 1) := by
    rw [← hrest, List.length_drop]
  simp only [step, filled_work, taken_work, if_neg (Nat.not_le.mpr hlt),
    if_neg (Nat.not_le.mpr hoffset), hcontrol, Option.bind_eq_bind, Option.bind_some, readToken]
  by_cases hrun : control.toNat < literalLimit
  · simp only [hrun, if_true, List.length_take]
    by_cases hshort : payload.length < offset + 1 + (control.toNat + 1)
    · rw [literal, if_pos hshort, if_pos (by omega)]
      rfl
    · have htake : (src.take (control.toNat + 1)).length = control.toNat + 1 := by
        rw [List.length_take]
        omega
      rw [literal_work (Nat.not_lt.mp hshort), if_neg (by omega), hrest]
      simp only [afterRead, Token.width, htake, Nat.add_assoc]
  · simp only [hrun, if_false]
    by_cases hlong : control.toNat / 32 = longCopy
    · simp only [hlong, if_true]
      cases src with
      | nil =>
        simp only [List.drop_eq_nil_iff.mp hrest, if_true]
        rfl
      | cons b src =>
        obtain ⟨hb, hget, hrest⟩ := drop_eq_cons hrest
        simp only [if_neg (Nat.not_le.mpr hb), hget, Option.bind_some]
        exact copyBack_work hrest (by rw [if_neg (by omega)])
    · simp only [hlong, if_false]
      have hcontrol := control.toNat_lt
      have hlimit : longCopy = 7 := rfl
      exact copyBack_work hrest (by rw [if_pos (by omega)])

/-! ### Expansions -/

/-- The turns that are left give the answer that the rest of the payload gives: each of them reads
the token that the expansion reads there, and leaves the work at hand behind it. -/
theorem turns_work {n : Nat} (hout : out.size ≤ size) (hsrc : payload.drop offset = src)
    (hn : src.length < n) :
    turns payload size n (work size offset out) =
      some (.done ((decompressFrom size offset src out).map Array.toList)) := by
  fun_induction decompressFrom size offset src out generalizing n with
    obtain ⟨n, rfl⟩ := Nat.exists_eq_add_one_of_ne_zero (Nat.ne_zero_of_lt hn)
  | case1 offset src out hfull =>
    have hbuffer : (work size offset out).buffer = out.toList := by
      rw [work, Nat.sub_eq_zero_of_le hfull, List.replicate_zero, List.append_nil]
    rw [turns, step, filled_work, if_pos hfull, hbuffer]
    rfl
  | case2 offset out hfull =>
    rw [turns, step, filled_work, if_neg hfull, taken_work,
      if_pos (List.drop_eq_nil_iff.mp hsrc)]
    rfl
  | case3 offset out hfull control src e hread =>
    rw [turns, step_work (Nat.lt_of_not_le hfull) hsrc, hread]
    rfl
  | case4 offset out hfull control src token rest hread e happly =>
    rw [turns, step_work (Nat.lt_of_not_le hfull) hsrc, hread]
    simp only [afterRead, applied, happly]
    rfl
  | case5 offset out hfull control src token rest hread mid happly ih =>
    rw [turns, step_work (Nat.lt_of_not_le hfull) hsrc, hread]
    simp only [afterRead, applied, happly]
    have hlength := length_of_readToken hread
    rw [List.length_cons] at hn
    refine ih (size_of_apply happly) ?_ (by omega)
    obtain ⟨hlegal, hbytes⟩ := readToken_iff.mp hread
    rw [← List.drop_drop, hsrc, hbytes, ← Token.length_bytes hlegal, List.drop_left]

theorem start_eq_work (size : Nat) : start size = work size 0 #[] :=
  rfl

/-- **In place, too, an expansion comes to its end, and to the same answer.** -/
theorem turns_start (payload : Bytes) (size : Nat) :
    turns payload size (payload.length + 1) (start size) =
      some (.done (decompress payload size)) := by
  rw [start_eq_work]
  exact turns_work (Nat.zero_le size) List.drop_zero (Nat.lt_succ_self _)

end RedisDump.Lzf.Buffered

namespace RedisDump.Lzf

/-- **Expansion is exact.** With room for its size, an expansion gives the output of the tokens that
the payload starts with if it has that size, and refuses a payload that starts with no such tokens
as malformed; in place, too, it comes to that answer, with no offset outside. A size for which there
is no room is refused whatever the payload. What tokens write is expanded from their bytes, whatever
follows them, and a copy writes the last bytes over and over again. -/
theorem expansion_exact (room : Room) (payload : Bytes) (size : Nat) :
    (room.Holds size →
      (∀ out, decompressTo size payload room = .ok out ↔ Opens payload out ∧ out.length = size) ∧
      ((∀ out, Opens payload out → out.length ≠ size) →
        ∃ e, decompressTo size payload room = .error (.malformed e)) ∧
      ∃ answer,
        Buffered.turns payload size (payload.length + 1) (Buffered.start size) =
          some (.done answer) ∧
        decompressTo size payload room = answer.mapError .malformed) ∧
    (¬ room.Holds size → decompressTo size payload room =
      .error (if (size : Int) < MachineWord.half then .outOfMemory else .tooWide)) ∧
    (∀ ts out, (∀ t ∈ ts, t.Legal) → Writes ts [] out → room.Holds out.length →
      decompressTo out.length (encode ts ++ payload) room = .ok out) ∧
    ∀ distance length out out', 0 < distance →
      ((Token.copy distance length).Writes out out' ↔
        distance ≤ out.length ∧ out' = out ++ cycle distance length out) := by
  refine ⟨fun hroom => ⟨fun out => ?_, fun hnone => ?_, ?_⟩,
    fun h => decompressTo_of_not_holds h payload, fun ts out hts hw hroom => ?_,
    fun _ _ _ _ hpos => Token.writes_copy_iff hpos⟩
  · rw [decompressTo_iff]
    exact and_iff_right hroom
  · refine exists_malformed hroom fun out h => ?_
    obtain ⟨-, hopens, hlength⟩ := decompressTo_iff.mp h
    exact hnone out hopens hlength
  · exact ⟨_, Buffered.turns_start payload size, decompressTo_of_holds hroom payload⟩
  · exact decompressTo_iff.mpr ⟨hroom, ⟨ts, payload, hts, rfl, hw⟩, rfl⟩

/-- A byte, and a copy of three bytes from one place before the end, with room for just four. -/
theorem expansion_exact_overlapping :
    (Room.below 5).Holds 4 ∧
      decompressTo (4 : Nat) [0, 97, 32, 0] (.below 5) = .ok [97, 97, 97, 97] := by
  have hroom : (Room.below 5).Holds 4 := by decide
  have hcopy : (Token.copy 1 3).Writes [97] [97, 97, 97, 97] :=
    ((expansion_exact (.below 5) [] 0).2.2.2 1 3 [97] _ (by decide)).mpr ⟨by decide, by decide⟩
  have hopens : Opens [0, 97, 32, 0] [97, 97, 97, 97] :=
    ⟨[.literal [97], .copy 1 3], [],
      List.forall_mem_cons.mpr ⟨.literal (by decide) (by decide), List.forall_mem_singleton.mpr
        (.copy (by decide) (by decide) (by decide) (by decide))⟩,
      by decide, .cons (.literal [97] []) (.cons hcopy (.nil _))⟩
  exact ⟨hroom,
    (((expansion_exact (.below 5) [0, 97, 32, 0] 4).1 hroom).1 _).mpr ⟨hopens, by decide⟩⟩

/-- A size that is no machine word is no fault of the payload, however much room there is. -/
theorem not_forall_malformed :
    ¬ ∃ room : Room, ∀ (payload : Bytes) (size : Nat),
      (∃ out, decompressTo size payload room = .ok out) ∨
        ∃ e, decompressTo size payload room = .error (.malformed e) := by
  rintro ⟨room, h⟩
  have hwide : decompressTo (9223372036854775808 : Nat) [] room = .error .tooWide := rfl
  obtain ⟨out, hok⟩ | ⟨e, herror⟩ := h [] 9223372036854775808
  · rw [hwide] at hok
    cases hok
  · rw [hwide] at herror
    cases herror

end RedisDump.Lzf
