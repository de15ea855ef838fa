import RedisDump.Proofs.Leads
import RedisDump.Proofs.Lifecycle

/-!
# Strict and lenient sessions

A lenient session is run beside the strict one that differs from it in nothing else
(`Session.hardened`). As long as the lenient session reads no gated lead the two are answered the
same and stay beside each other. In the entry for which it reads the first one, the strict session
refuses its part, right behind it, and has failed. So what a strict session accepts a lenient one
accepts too, with the same entries, and a strict session returns no entry with a lead newer than
the snapshot (`gating_exact`).
-/

namespace RedisDump

namespace Session

variable {s t : Session}

/-! ### The leads of a session -/

/-- The leads that the next read takes. -/
def leads (s : Session) : List Lead :=
  match s.phase with
  | .ready version => ReadRecord.leads s.profile version s.intake
  | .fresh =>
    match s.openSnapshot with
    | (.ok version, s) => ReadRecord.leads s.profile version s.intake
    | (.error _, _) => []
  | .exhausted _ | .failed _ | .closed _ => []

/-- The leads that a run of reads takes. -/
def drainLeads (s : Session) (limit : Option Nat) : List Lead :=
  if limit = some 0 then []
  else
    s.leads ++
      match _h : s.next with
      | (.ok (some _), s) => drainLeads s (limit.map Nat.pred)
      | (.ok none, _) | (.error _, _) => []
termination_by s.remaining
decreasing_by exact remaining_next _h

/-- The leads that a step takes. -/
def stepLeads (s : Session) : Step → List Lead
  | .next | .demand => s.leads
  | .drain => s.drainLeads none
  | .close | .allValues | .metrics | .log | .closeCalls | .ask _ => []

/-- The leads that a sequence of steps takes. -/
def runLeads (s : Session) : List Step → List Lead
  | [] => []
  | op :: ops => s.stepLeads op ++ runLeads (s.step op).2 ops

theorem drainLeads_of_some {s s' : Session} {limit : Option Nat} {e : Entry Packed}
    (hl : limit ≠ some 0) (h : s.next = (.ok (some e), s')) :
    s.drainLeads limit = s.leads ++ s'.drainLeads (limit.map Nat.pred) := by
  rw [drainLeads, if_neg hl]
  split <;> simp_all

theorem drainLeads_of_last {limit : Option Nat} (hl : limit ≠ some 0)
    (h : ∀ e, s.next.1 ≠ .ok (some e)) : s.drainLeads limit = s.leads := by
  rw [drainLeads, if_neg hl]
  split <;> simp_all

/-! ### One read -/

/-- The strict session that agrees with a session in all else. -/
def hardened (s : Session) : Session :=
  { s with profile := s.profile.withStrict true }

/-- What a strict session is like that has just refused a lead: the error names the part that is too
new, nothing behind the lead has been read, and the session has failed. -/
structure Refused (l : Lead) (e : Error) (s : Session) : Prop where
  error : ∃ part, l.part? = some part ∧ e = .reading (.format (.tooNew part l.version))
  bytesRead : s.bytesRead = l.position
  phase : s.phase = .failed (some l.version)

theorem fail_hardened (s : Session) (e : ReadError) : (s.fail e).hardened = s.hardened.fail e := by
  have hprofile : (s.fail e).hardened = (s.fail e).withProfile (s.profile.withStrict true) := by
    rw [hardened, profile_fail]
    rfl
  rw [hprofile, fail_withProfile]
  rfl

theorem openSnapshot_hardened (s : Session) :
    s.hardened.openSnapshot = (s.openSnapshot.1, s.openSnapshot.2.hardened) := by
  cases hr : ReadRecord.fromInput (Read.header s.profile) s.intake with
  | ok version intake =>
    rw [openSnapshot_of_ok hr, openSnapshot_of_ok (s := s.hardened) hr]
    rfl
  | error e intake =>
    rw [openSnapshot_of_error hr, openSnapshot_of_error (s := s.hardened) hr, fail_hardened]
    rfl

theorem readEntry_hardened (hs : s.profile.strict = false) {version : Nat}
    (hp : s.phase = .ready version) :
    match (ReadRecord.leads s.profile version s.intake).find? Lead.isGated with
    | none => s.hardened.readEntry version =
        ((s.readEntry version).1, (s.readEntry version).2.hardened)
    | some l => ∃ e t, s.hardened.readEntry version = (.error e, t) ∧ Refused l e t ∧
        t.entries = s.entries := by
  have he := ReadRecord.entry_withStrict hs version s.intake
  split
  · rename_i hl
    rw [hl] at he
    have he' : ReadRecord.entry s.hardened.profile version s.hardened.intake =
        ReadRecord.entry s.profile version s.intake := he
    cases hr : ReadRecord.entry s.profile version s.intake with
    | ok e intake =>
      rw [hr] at he'
      rw [readEntry_of_ok hr, readEntry_of_ok he']
      cases e <;> rfl
    | error e intake =>
      rw [hr] at he'
      rw [readEntry_of_error hr, readEntry_of_error he', fail_hardened]
      rfl
  · rename_i l hl
    rw [hl] at he
    obtain ⟨part, intake, hpart, hv, hc, he⟩ := he
    have he' : ReadRecord.entry s.hardened.profile version s.hardened.intake =
        .error (.format (.tooNew part version)) intake := he
    subst hv
    rw [readEntry_of_error he']
    refine ⟨_, _, rfl, ⟨⟨part, hpart, rfl⟩, ?_, ?_⟩, ?_⟩
    · simp only [bytesRead, intake_fail]
      exact hc
    · simp only [phase_fail]
      change (if true then Phase.failed s.phase.version? else s.phase) = _
      rw [hp]
      rfl
    · simp [hardened]

/-- **One read, strict and lenient.** -/
theorem next_hardened (hs : s.profile.strict = false) :
    match s.leads.find? Lead.isGated with
    | none => s.hardened.next = (s.next.1, s.next.2.hardened)
    | some l => ∃ e t, s.hardened.next = (.error e, t) ∧ Refused l e t ∧
        t.entries = s.entries := by
  cases hp : s.phase with
  | closed version? =>
    have hn : ∀ t : Session, t.phase = .closed version? → t.next = (.error .closed, t) :=
      fun t ht => by simp only [next, ht]
    simp only [leads, hp, List.find?_nil]
    rw [hn s hp, hn s.hardened hp]
  | failed version? =>
    simp only [leads, hp, List.find?_nil]
    rw [next_of_failed hp, next_of_failed (s := s.hardened) hp]
  | exhausted version =>
    simp only [leads, hp, List.find?_nil]
    rw [next_of_exhausted hp, next_of_exhausted (s := s.hardened) hp]
  | ready version =>
    have hr := readEntry_hardened hs hp
    simp only [leads, hp]
    rw [next_of_ready hp, next_of_ready (s := s.hardened) hp]
    exact hr
  | fresh =>
    have ho := openSnapshot_hardened s
    have hentries := entries_openSnapshot s
    have hprofile : s.openSnapshot.2.profile = s.profile := profile_openSnapshot s
    simp only [leads, hp]
    cases h : s.openSnapshot with
    | mk answer s' =>
      rw [h] at ho hentries hprofile
      cases answer with
      | error e =>
        simp only [List.find?_nil]
        rw [next_of_fresh_error hp h, next_of_fresh_error (s := s.hardened) hp ho]
      | ok version =>
        have hr := readEntry_hardened (s := s') (hprofile ▸ hs) (phase_of_openSnapshot h)
        rw [next_of_fresh hp h, next_of_fresh (s := s.hardened) hp ho]
        dsimp only
        split
        · rename_i hl
          rwa [hl] at hr
        · rename_i l hl
          rw [hl] at hr
          rwa [← hentries]

/-! ### A run of reads -/

/-- The session `u` is `s` after some reads without a gated lead, and the next read takes `l` as its
first one. -/
def MeetsGate (s : Session) (l : Lead) (u : Session) : Prop :=
  ∃ n, s.drain (some n) = (.enough, u) ∧ (s.drainLeads (some n)).find? Lead.isGated = none ∧
    u.leads.find? Lead.isGated = some l

theorem drainLeads_zero (s : Session) : s.drainLeads (some 0) = [] := by
  rw [drainLeads, if_pos rfl]

/-- A gated lead is met by the first read that takes one. -/
theorem meetsGate_of_leads {l : Lead} (h : s.leads.find? Lead.isGated = some l) :
    MeetsGate s l s :=
  ⟨0, drain_zero s, by rw [drainLeads_zero, List.find?_nil], h⟩

/-- What a read without a gated lead leaves meets the gate where the session before it does. -/
theorem MeetsGate.of_next {l : Lead} {e : Entry Packed} {u : Session}
    (hn : s.next = (.ok (some e), t)) (hs : s.leads.find? Lead.isGated = none)
    (h : MeetsGate t l u) : MeetsGate s l u := by
  obtain ⟨n, hd, hleads, hu⟩ := h
  have hl : (some (n + 1) : Option Nat) ≠ some 0 := nofun
  refine ⟨n + 1, ?_, ?_, hu⟩
  · rw [drain_of_some hl hn]
    exact hd
  · rw [drainLeads_of_some hl hn, List.find?_append, hs, Option.none_or]
    exact hleads

/-- A strict run of reads stops at the gated lead of its first one. -/
theorem drain_hardened_of_leads (hs : s.profile.strict = false) {limit : Option Nat}
    (hl : limit ≠ some 0) {l : Lead} (h : s.leads.find? Lead.isGated = some l) :
    ∃ u e t, MeetsGate s l u ∧ s.hardened.drain limit = (.failed e, t) ∧ Refused l e t ∧
      t.entries = u.entries := by
  have hnext := next_hardened hs
  rw [h] at hnext
  obtain ⟨e, t, ht, hr, hentries⟩ := hnext
  exact ⟨s, e, t, meetsGate_of_leads h, drain_of_error hl ht, hr, hentries⟩

/-- **A run of reads, strict and lenient.** -/
theorem drain_hardened (hs : s.profile.strict = false) (limit : Option Nat) :
    match (s.drainLeads limit).find? Lead.isGated with
    | none => s.hardened.drain limit = ((s.drain limit).1, (s.drain limit).2.hardened)
    | some l => ∃ u e t, MeetsGate s l u ∧ s.hardened.drain limit = (.failed e, t) ∧
        Refused l e t ∧ t.entries = u.entries := by
  fun_induction drain s limit with
  | case1 s =>
    simp only [drainLeads_zero, List.find?_nil, drain_zero]
  | case2 s limit hl e s' hn ih =>
    have hnext := next_hardened hs
    have hprofile := profile_next s
    rw [hn] at hnext hprofile
    rw [drainLeads_of_some hl hn, List.find?_append]
    cases hleads : s.leads.find? Lead.isGated with
    | some l => exact drain_hardened_of_leads hs hl hleads
    | none =>
      rw [hleads] at hnext
      have hi := ih (hprofile ▸ hs)
      rw [Option.none_or, drain_of_some hl hnext]
      cases hrest : (s'.drainLeads (limit.map Nat.pred)).find? Lead.isGated with
      | none =>
        rw [hrest] at hi
        exact hi
      | some l =>
        rw [hrest] at hi
        obtain ⟨u, e', t, hmeets, ht⟩ := hi
        exact ⟨u, e', t, hmeets.of_next hn hleads, ht⟩
  | case3 s limit hl s' hn =>
    have hnext := next_hardened hs
    rw [hn] at hnext
    rw [drainLeads_of_last hl (by rw [hn]; rintro _ ⟨⟩)]
    cases hleads : s.leads.find? Lead.isGated with
    | some l => exact drain_hardened_of_leads hs hl hleads
    | none =>
      rw [hleads] at hnext
      exact drain_of_none hl hnext
  | case4 s limit hl e s' hn =>
    have hnext := next_hardened hs
    rw [hn] at hnext
    rw [drainLeads_of_last hl (by rw [hn]; rintro _ ⟨⟩)]
    cases hleads : s.leads.find? Lead.isGated with
    | some l => exact drain_hardened_of_leads hs hl hleads
    | none =>
      rw [hleads] at hnext
      exact drain_of_error hl hnext

/-! ### Steps -/

/-- What a strict session makes of a step for which the lenient session `s` takes the gated lead
`l`: it returns what `s` has read before the entry of that lead, refuses the lead and has failed. -/
structure StopsAt (s : Session) (l : Lead) (r : Except StepError Answer × Session) : Prop where
  refused : ∃ e, failureOf r.1 = some e ∧ Refused l e r.2
  returned : ∃ u, MeetsGate s l u ∧ u.entries.toList = s.entries.toList ++ returned r.1

theorem stopsAt_of_leads {l : Lead} {e : Error} (h : s.leads.find? Lead.isGated = some l)
    (hr : Refused l e t) : StopsAt s l (.error (.session e), t) where
  refused := ⟨e, rfl, hr⟩
  returned := ⟨s, meetsGate_of_leads h, (List.append_nil _).symm⟩

theorem entries_hardened (s : Session) : s.hardened.entries = s.entries :=
  rfl

theorem close_hardened (s : Session) : s.hardened.close = s.close.hardened := by
  have hprofile : s.close.profile = s.profile := profile_step s .close
  have hclose : s.close.hardened = s.close.withProfile (s.profile.withStrict true) := by
    rw [hardened, hprofile]
    rfl
  rw [hclose]
  exact close_withProfile s (s.profile.withStrict true)

/-- **A step, strict and lenient.** -/
theorem step_hardened (hs : s.profile.strict = false) (op : Step) :
    match (s.stepLeads op).find? Lead.isGated with
    | none => s.hardened.step op = ((s.step op).1, (s.step op).2.hardened)
    | some l => StopsAt s l (s.hardened.step op) := by
  cases op with
  | next =>
    have hn := next_hardened hs
    change match s.leads.find? Lead.isGated with
      | none => _
      | some l => _
    split
    · rename_i hl
      rw [hl] at hn
      simp only [step, hn]
    · rename_i l hl
      rw [hl] at hn
      obtain ⟨e, t, ht, hr, -⟩ := hn
      simp only [step, ht]
      exact stopsAt_of_leads hl hr
  | demand =>
    have hn := next_hardened hs
    change match s.leads.find? Lead.isGated with
      | none => _
      | some l => _
    split
    · rename_i hl
      rw [hl] at hn
      simp only [step, demand, hn]
      generalize s.next = r
      obtain ⟨answer, t⟩ := r
      rcases answer with e | _ | e <;> rfl
    · rename_i l hl
      rw [hl] at hn
      obtain ⟨e, t, ht, hr, -⟩ := hn
      simp only [step, demand, ht]
      exact stopsAt_of_leads hl hr
  | drain =>
    have hd := drain_hardened hs none
    change match (s.drainLeads none).find? Lead.isGated with
      | none => _
      | some l => _
    split
    · rename_i hl
      rw [hl] at hd
      simp only [step, drainAll, hd, entries_hardened]
    · rename_i l hl
      rw [hl] at hd
      obtain ⟨u, e, t, hmeets, ht, hr, hentries⟩ := hd
      have hreturned := returned_drain s.hardened
      rw [ht, hentries, entries_hardened] at hreturned
      refine ⟨⟨e, ?_, ?_⟩, u, hmeets, hreturned.symm⟩
      · simp only [step, drainAll, ht]
        rfl
      · simp only [step, drainAll, ht]
        exact hr
  | close =>
    simp only [stepLeads, List.find?_nil, step, close_hardened]
  | allValues => rfl
  | metrics => rfl
  | log => rfl
  | closeCalls => rfl
  | ask q => rfl

/-! ### Runs -/

/-- Without a gated lead the strict session is answered as the lenient one, and stays beside it. -/
theorem run_hardened (hs : s.profile.strict = false) (ops : List Step)
    (h : (s.runLeads ops).find? Lead.isGated = none) :
    s.hardened.transcript ops = s.transcript ops ∧ s.hardened.run ops = (s.run ops).hardened := by
  induction ops generalizing s with
  | nil => exact ⟨rfl, rfl⟩
  | cons op ops ih =>
    rw [runLeads, List.find?_append, Option.or_eq_none_iff] at h
    have hstep := step_hardened hs op
    rw [h.1] at hstep
    obtain ⟨ht, hr⟩ := ih ((profile_step s op).symm ▸ hs) h.2
    constructor
    · simp only [transcript, hstep, ht]
      rfl
    · simp only [run, hstep, hr]

/-- What a strict session reads to the end a lenient one reads to the end too. -/
theorem drain_of_hardened (hs : s.profile.strict = false) {limit : Option Nat}
    (h : s.hardened.drain limit = (.finished, t)) :
    ∃ u, s.drain limit = (.finished, u) ∧ u.entries = t.entries := by
  have hd := drain_hardened hs limit
  split at hd
  · rw [h] at hd
    obtain ⟨hending, hsession⟩ := Prod.mk.inj hd
    exact ⟨(s.drain limit).2, Prod.ext hending.symm rfl, by rw [hsession]; rfl⟩
  · obtain ⟨u, e, t', -, ht', -⟩ := hd
    rw [h] at ht'
    cases ht'

theorem announces_of_readEntry {version : Nat} {e : Entry Packed} (hp : s.phase = .ready version)
    (h : s.readEntry version = (.ok (some e), t)) :
    Announces (ReadRecord.leads s.profile version s.intake) e ∧
      ∀ l ∈ ReadRecord.leads s.profile version s.intake, t.phase.version? = some l.version ∧
        ∀ part, l.part? = some part → s.profile.refuses part l.version = false := by
  cases hr : ReadRecord.entry s.profile version s.intake with
  | error e intake =>
    rw [readEntry_of_error hr] at h
    cases h
  | ok e intake =>
    rw [readEntry_of_ok hr] at h
    cases h
    obtain ⟨hann, hall⟩ := ReadRecord.announces_of_entry hr
    refine ⟨hann, fun l hl => ?_⟩
    obtain ⟨rfl, hparts⟩ := hall l hl
    have hversion := version_advance { s with intake := intake } hp e
    exact ⟨hversion.trans (congrArg Phase.version? hp), hparts⟩

/-- The leads of an entry announce it, are of the version of the session, and none of them is
refused. -/
theorem announces_of_next {e : Entry Packed} (h : s.next = (.ok (some e), t)) :
    Announces s.leads e ∧ ∀ l ∈ s.leads, t.phase.version? = some l.version ∧
      ∀ part, l.part? = some part → s.profile.refuses part l.version = false := by
  cases hp : s.phase with
  | closed => simp [next, hp] at h
  | failed => simp [next, hp] at h
  | exhausted => simp [next, hp] at h
  | ready version =>
    rw [next_of_ready hp] at h
    simp only [leads, hp]
    exact announces_of_readEntry hp h
  | fresh =>
    have hprofile := profile_openSnapshot s
    cases ho : s.openSnapshot with
    | mk answer s' => cases answer with
      | error e =>
        rw [next_of_fresh_error hp ho] at h
        cases h
      | ok version =>
        rw [next_of_fresh hp ho] at h
        rw [ho] at hprofile
        simp only [leads, hp, ho, ← hprofile]
        exact announces_of_readEntry (phase_of_openSnapshot ho) h

/-- **Gating is exact.** Over any source, a strict session and the lenient one that differs from it
in nothing else: without a gated lead they answer the same at every step; for the first step that
takes one, the strict session returns what was read before the entry of that lead and then refuses
it, having read nothing behind it. So what the strict session reads to the end the lenient one reads
to the end too, with the same entries; and every entry of a strict session has been announced by
leads that are no newer than the snapshot. -/
theorem gating_exact (p : Profile) (source : Source) :
    (∀ ops, ((start (p.withStrict false) source).runLeads ops).find? Lead.isGated = none →
      (start (p.withStrict true) source).transcript ops =
        (start (p.withStrict false) source).transcript ops) ∧
    (∀ ops op l, ((start (p.withStrict false) source).runLeads ops).find? Lead.isGated = none →
      (((start (p.withStrict false) source).run ops).stepLeads op).find? Lead.isGated = some l →
        StopsAt ((start (p.withStrict false) source).run ops) l
          (((start (p.withStrict true) source).run ops).step op)) ∧
    (∀ limit t, (start (p.withStrict true) source).drain limit = (.finished, t) →
      ∃ u, (start (p.withStrict false) source).drain limit = (.finished, u) ∧
        u.entries = t.entries) ∧
    ∀ (s : Session) (e : Entry Packed) (t : Session), s.profile = p.withStrict true →
      s.next = (.ok (some e), t) → Announces s.leads e ∧
        ∀ l ∈ s.leads, t.phase.version? = some l.version ∧ l.isGated = false := by
  have hlenient : (start (p.withStrict false) source).profile.strict = false := rfl
  have hstrict : start (p.withStrict true) source =
      (start (p.withStrict false) source).hardened := rfl
  refine ⟨fun ops h => ?_, fun ops op l h hl => ?_, fun limit t h => ?_, fun s e t hs h => ?_⟩
  · rw [hstrict]
    exact (run_hardened hlenient ops h).1
  · have hprofile : ((start (p.withStrict false) source).run ops).profile.strict = false := by
      rw [profile_run]
      rfl
    have hstep := step_hardened hprofile op
    rw [hl] at hstep
    rw [hstrict, (run_hardened hlenient ops h).2]
    exact hstep
  · rw [hstrict] at h
    exact drain_of_hardened hlenient h
  · obtain ⟨hann, hall⟩ := announces_of_next h
    refine ⟨hann, fun l hl => ?_⟩
    obtain ⟨hv, hparts⟩ := hall l hl
    refine ⟨hv, ?_⟩
    cases hpart : l.part? with
    | none => simp [Lead.isGated, hpart]
    | some part =>
      have hr := hparts part hpart
      rw [hs] at hr
      simpa [Lead.isGated_of_part hpart, Profile.refuses, Profile.withStrict] using hr

/-- A snapshot of version 3 that ends behind the opcode of an information field, which version 7
first had. -/
def earlyAuxSnapshot : Bytes :=
  [0x52, 0x45, 0x44, 0x49, 0x53, 0x30, 0x30, 0x30, 0x33, 0xFA]

/-- A session over it. -/
def earlyAux (strict : Bool) : Session :=
  start (Profile.standard.withStrict strict) (.ofBytes earlyAuxSnapshot)

theorem leads_earlyAux :
    (earlyAux false).leads = [{ byte := 0xFA, position := 10, version := 3 }] := by
  have hheader : ReadRecord.fromInput (Read.header (earlyAux false).profile)
      (earlyAux false).intake = .ok 3 (.behind .standard earlyAuxSnapshot 9) := rfl
  have hrecord : ReadRecord.record (earlyAux false).profile 3
      (.behind .standard earlyAuxSnapshot 9) =
        .error (.truncated 10 1) (.behind .standard earlyAuxSnapshot 10) := rfl
  have hphase : (earlyAux false).phase = .fresh := rfl
  simp only [leads, hphase, openSnapshot_of_ok hheader]
  exact ReadRecord.leads_of_error hrecord

/-- A strict session refuses the opcode at which a lenient one reads on. -/
theorem gating_exact_earlyAux :
    ((earlyAux false).stepLeads .next).find? Lead.isGated =
        some { byte := 0xFA, position := 10, version := 3 } ∧
      StopsAt (earlyAux false) { byte := 0xFA, position := 10, version := 3 }
        ((earlyAux true).step .next) := by
  have hlead : ((earlyAux false).stepLeads .next).find? Lead.isGated =
      some { byte := 0xFA, position := 10, version := 3 } := by
    change (earlyAux false).leads.find? Lead.isGated = _
    rw [leads_earlyAux]
    rfl
  exact ⟨hlead, (gating_exact .standard (.ofBytes earlyAuxSnapshot)).2.1 [] .next _ rfl hlead⟩

end Session

end RedisDump
