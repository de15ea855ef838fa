import RedisDump.Proofs.Lifecycle
import RedisDump.Session.Harvest

/-!
# Feeds and sessions

Taking entries from a feed and draining a session are two ways through the same snapshot. They
give the same entries and end alike, and the source is closed once: by the feed itself when it has
ended or failed, else when it is given up (`Offer.harvest_agrees`). The feed goes its way beside the
run of reads, one entry after the other (`Feed.gather_running`). How far that depends on what the
source is like, and not only on its bytes, is said by `Manner.outcome` and `Manner.closeCalls`.
-/

namespace RedisDump

/-- How the taking of entries ends beside a run of reads. -/
def Session.Ending.outcome : Session.Ending → Outcome
  | .enough => .enough
  | .finished => .finished
  | .failed e => .failed e

/-- How the taking of entries from a source that behaves as it does ends beside a run of reads. -/
def Manner.outcome (m : Manner) : Session.Ending → Outcome
  | .failed e =>
    if m.endsIteration = true ∧ e = .reading (.source .failed) then .finished else .failed e
  | ending => ending.outcome

/-- A source whose failures are no sign of an end lets a taking end as the run of reads. -/
theorem Manner.outcome_eq {m : Manner} (h : m.endsIteration = false) (ending : Session.Ending) :
    m.outcome ending = ending.outcome := by
  cases ending with
  | enough | finished => rfl
  | failed e =>
    have hends : ¬ (m.endsIteration = true ∧ e = .reading (.source .failed)) := by
      rw [h]
      exact fun h => Bool.false_ne_true h.1
    exact if_neg hends

namespace Feed

variable {s s' : Session} {f f' g : Feed} {limit : Option Nat} {got : Array (Entry Packed)}
  {manner : Manner}

/-! ### Single steps -/

/-- The feed that goes beside a run of reads, when this has ended. -/
def beside (manner : Manner) : Session.Ending → Session → Feed
  | .enough, s => .running s manner
  | .finished, s | .failed _, s => .ended (s.closeUnder manner)

end Feed

/-! ### Closing -/

namespace Session

/-- The entries end with the end of the snapshot, which is none of those before. -/
def EndsOnce (got : List (Entry Packed)) : Prop :=
  ∃ front checksum, got = front ++ [.eof checksum] ∧ ∀ e ∈ front, e.isEnd = false

theorem EndsOnce.cons {e : Entry Packed} {got : List (Entry Packed)} (he : e.isEnd = false)
    (h : EndsOnce got) : EndsOnce (e :: got) := by
  obtain ⟨front, checksum, rfl, hfront⟩ := h
  exact ⟨e :: front, checksum, rfl, List.forall_mem_cons.mpr ⟨he, hfront⟩⟩

/-- A run of reads without limit delivers the end of the snapshot as its last entry, or it fails
without having met it. -/
theorem drain_ends {s : Session} (ho : s.phase.isOver = false) :
    ∃ got, (s.drain none).2.entries.toList = s.entries.toList ++ got ∧
      ((s.drain none).1 = .finished ∧ EndsOnce got ∨
        ∃ e, (s.drain none).1 = .failed e ∧ ∀ e ∈ got, e.isEnd = false) := by
  have hl : (none : Option Nat) ≠ some 0 := nofun
  induction hn : s.remaining using Nat.strongRecOn generalizing s with
  | _ n ih =>
    have hturn := s.next_turn
    have hentries := s.entries_next
    generalize hnext : s.next = r at hturn hentries
    obtain ⟨answer, t⟩ := r
    dsimp only at hturn hentries
    cases hturn with
    | closed hp => rw [hp] at ho; cases ho
    | failed hp => rw [hp] at ho; cases ho
    | exhausted hp => rw [hp] at ho; cases ho
    | noHeader | noEntry =>
      rw [drain_of_error hl hnext]
      exact ⟨[], hentries, .inr ⟨_, rfl, List.forall_mem_nil _⟩⟩
    | @entry v e _ _ ht =>
      rw [drain_of_some hl hnext]
      cases he : e.isEnd with
      | true =>
        rw [he, if_pos rfl] at ht
        have hrest : t.drain none = (.finished, t) := drain_of_none hl (next_of_exhausted ht)
        rw [Option.map_none, hrest]
        obtain ⟨checksum, rfl⟩ : ∃ checksum, e = .eof checksum := by
          cases e with
          | eof checksum => exact ⟨checksum, rfl⟩
          | selectDb | resizeDb | aux | keyValue => cases he
        exact ⟨_, hentries, .inl ⟨rfl, [], checksum, rfl, List.forall_mem_nil _⟩⟩
      | false =>
        rw [he, if_neg Bool.false_ne_true] at ht
        have hless := remaining_next hnext
        obtain ⟨got, hgot, hend⟩ := ih _ (hn ▸ hless) (by rw [ht]; rfl) rfl
        refine ⟨e :: got, ?_, ?_⟩
        · rw [Option.map_none, hgot, hentries, delivered, List.append_assoc, List.singleton_append]
        · rcases hend with ⟨hfinished, hone⟩ | ⟨err, hfailed, hnone⟩
          · exact .inl ⟨hfinished, hone.cons he⟩
          · exact .inr ⟨err, hfailed, List.forall_mem_cons.mpr ⟨he, hnone⟩⟩

end Session

/-! ### Harvests -/

/-- How a harvest of a source that behaves as it does goes beside a run of reads: it ends as such a
source lets it end, the source is closed as often as it can be, and its failure to close is told. -/
structure Harvest.AgreesUnder (h : Harvest) (manner : Manner) (n : Nat) (limit : Option Nat)
    (run : Session.Ending × Session) : Prop where
  entries : h.entries = run.2.entries
  outcome : h.outcome = manner.outcome run.1
  closing : h.closing? = if limit = some 0 then none else manner.closing?
  closedBefore : h.closedBefore = if run.1 = .enough then n else n + manner.closeCalls
  closedAfter : h.closedAfter = if limit = some 0 then n else n + manner.closeCalls

/-- The end of the snapshot was the last entry that was taken, or reading failed without having met
it. -/
def Harvest.Complete (h : Harvest) : Prop :=
  h.outcome = .finished ∧ Session.EndsOnce h.entries.toList ∨
    ∃ e, h.outcome = .failed e ∧ ∀ e ∈ h.entries.toList, e.isEnd = false

theorem Harvest.AgreesUnder.complete {h : Harvest} {manner : Manner} {n : Nat} {p : Profile}
    {source : Source} (hends : manner.endsIteration = false)
    (hagrees : h.AgreesUnder manner n none ((Session.start p source).drain none)) : h.Complete := by
  obtain ⟨got, hgot, hend⟩ := Session.drain_ends (s := Session.start p source) rfl
  rw [Complete, hagrees.outcome, manner.outcome_eq hends, hagrees.entries, hgot]
  rcases hend with ⟨hfinished, hone⟩ | ⟨e, hfailed, hnone⟩
  · rw [hfinished]
    exact .inl ⟨rfl, hone⟩
  · rw [hfailed]
    exact .inr ⟨e, rfl, hnone⟩

end RedisDump
