import RedisDump.Session.Offer

/-!
# Feeds

A feed hands out the entries of a snapshot one by one. It opens the snapshot when it is first asked
for an entry, and closes it when there is none any more: behind the end, or when a read has failed.
From then on it hands out nothing. A feed that is given up before closes what it has opened.

Not every source goes along with that. A failure to close takes the place of what the feed would
have come to, and a failing read that says that an iteration is over ends the feed without an error.
-/

namespace RedisDump

/-- A snapshot whose entries are handed out one by one. -/
inductive Feed where
  /-- No entry has been asked for, so nothing has been opened. -/
  | unopened (offer : Offer) (profile : Profile)
  /-- Entries are handed out by a session, whose source behaves as it does. -/
  | running (s : Session) (manner : Manner)
  /-- The feed is over, and nothing has ever been opened. -/
  | abandoned (offer : Offer)
  /-- The feed is over, and its session has been closed. -/
  | ended (s : Session)

namespace Feed

/-- Why a feed hands out nothing. -/
inductive Error where
  /-- What was offered is no source. -/
  | refused (m : Misfit)
  /-- Reading failed. -/
  | failed (e : Session.Error)
  /-- The source could not be closed when the snapshot had ended, or reading had failed. -/
  | closing (e : ClosingError) (before? : Option Session.Error)
  deriving DecidableEq, Repr

end Feed

/-- The failure of a read as far as it is seen through a feed. -/
def Manner.failure? (m : Manner) (e : Session.Error) : Option Session.Error :=
  if m.endsIteration = true ∧ e = .reading (.source .failed) then none else some e

namespace Feed

/-- What a feed comes to that has no further entry, because of a failure or not. -/
def verdict (manner : Manner) (failure? : Option Session.Error) :
    Except Error (Option (Entry Packed)) :=
  match manner.closing?, failure? with
  | some e, failure? => .error (.closing e failure?)
  | none, some e => .error (.failed e)
  | none, none => .ok none

/-- Hands out the next entry of a session, which is closed if there is none. -/
def handOut (s : Session) (manner : Manner) : Except Error (Option (Entry Packed)) × Feed :=
  match s.next with
  | (.ok (some e), s) => (.ok (some e), .running s manner)
  | (.ok none, s) => (verdict manner none, .ended (s.closeUnder manner))
  | (.error e, s) => (verdict manner (manner.failure? e), .ended (s.closeUnder manner))

/-- Hands out the next entry, or nothing when the feed is over. -/
def pull : Feed → Except Error (Option (Entry Packed)) × Feed
  | unopened offer profile =>
    match offer.open profile with
    | .ok s => handOut s offer.manner
    | .error m => (.error (.refused m), .abandoned offer)
  | running s manner => handOut s manner
  | abandoned offer => (.ok none, .abandoned offer)
  | ended s => (.ok none, .ended s)

/-- Gives up the feed. -/
def close : Feed → Feed
  | unopened offer _ => .abandoned offer
  | running s manner => .ended (s.closeUnder manner)
  | abandoned offer => .abandoned offer
  | ended s => .ended s

/-- Why the feed cannot be given up without an error, if it cannot. -/
def closing? : Feed → Option ClosingError
  | running _ manner => manner.closing?
  | unopened .. | abandoned _ | ended _ => none

/-- How often the source has been closed. -/
def closeCalls : Feed → Nat
  | unopened offer _ | abandoned offer => offer.closeCalls
  | running s _ | ended s => s.closeCalls

/-- The number of bytes that can still be read. -/
def remaining : Feed → Nat
  | unopened offer profile =>
    match offer.open profile with
    | .ok s => s.remaining
    | .error _ => 0
  | abandoned _ | ended _ => 0
  | running s _ => s.remaining

/-- A feed without a further entry hands out none. -/
theorem verdict_ne_some (manner : Manner) (failure? : Option Session.Error) (e : Entry Packed) :
    verdict manner failure? ≠ .ok (some e) := by
  unfold verdict
  split <;> rintro ⟨⟩

theorem remaining_handOut {s : Session} {manner : Manner} {e : Entry Packed} {f : Feed}
    (h : handOut s manner = (.ok (some e), f)) : f.remaining < s.remaining := by
  unfold handOut at h
  split at h
  · rename_i hn
    cases h
    exact Session.remaining_next hn
  · exact absurd (congrArg Prod.fst h) (verdict_ne_some _ _ e)
  · exact absurd (congrArg Prod.fst h) (verdict_ne_some _ _ e)

/-- Every entry takes at least one byte of the source. -/
theorem remaining_pull {f f' : Feed} {e : Entry Packed} (h : f.pull = (.ok (some e), f')) :
    f'.remaining < f.remaining := by
  cases f with
  | unopened offer profile =>
    simp only [pull] at h
    simp only [remaining]
    split at h
    · exact remaining_handOut h
    · cases h
  | running s => exact remaining_handOut h
  | abandoned offer => cases h
  | ended s => cases h

end Feed

end RedisDump
