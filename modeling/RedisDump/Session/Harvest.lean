import RedisDump.Session.Feed

/-!
# The entries of a snapshot

`Offer.harvest` takes the entries of a feed one after the other, up to a number of them, and then
gives it up. A feed that has ended or failed has closed its snapshot by itself; one of which no
entry is asked for does not even open it. That a source could not be closed is told besides how the
taking had ended.
-/

namespace RedisDump

/-- How the taking of entries ended. -/
inductive Outcome where
  /-- As many entries as were asked for had been taken. -/
  | enough
  /-- The snapshot had ended. -/
  | finished
  /-- What was offered was no source. -/
  | refused (m : Misfit)
  /-- Reading failed. -/
  | failed (e : Session.Error)
  deriving DecidableEq, Repr

/-- The taking of entries ends with the error of the feed. -/
def Feed.Error.outcome : Feed.Error → Outcome
  | .refused m => .refused m
  | .failed e | .closing _ (some e) => .failed e
  | .closing _ none => .finished

/-- Why the source could not be closed, when that is the error of the feed. -/
def Feed.Error.closing? : Feed.Error → Option ClosingError
  | .closing e _ => some e
  | .refused _ | .failed _ => none

/-- The entries taken from a snapshot. -/
structure Harvest where
  /-- The entries, in order. -/
  entries : Array (Entry Packed)
  /-- How the taking ended. -/
  outcome : Outcome
  /-- Why the source could not be closed, if it could not. This is the error that is seen then, in
  place of that of the outcome. -/
  closing? : Option ClosingError
  /-- How often the source had been closed when the last entry was taken. -/
  closedBefore : Nat
  /-- How often the source had been closed in the end. -/
  closedAfter : Nat

/-- The entries that have been taken from a feed, which is given up. -/
def Feed.giveUp (f : Feed) (got : Array (Entry Packed)) (outcome : Outcome)
    (closing? : Option ClosingError) : Harvest :=
  { entries := got, outcome, closing?, closedBefore := f.closeCalls
    closedAfter := f.close.closeCalls }

/-- Takes up to `limit` entries from a feed and puts them behind those in `got`. -/
def Feed.gather (f : Feed) (limit : Option Nat) (got : Array (Entry Packed)) : Harvest :=
  if limit = some 0 then f.giveUp got .enough f.closing?
  else
    match _h : f.pull with
    | (.ok (some e), f) => f.gather (limit.map Nat.pred) (got.push e)
    | (.ok none, f) => f.giveUp got .finished none
    | (.error e, f) => f.giveUp got e.outcome e.closing?
termination_by f.remaining
decreasing_by exact remaining_pull _h

/-- Takes the entries of what is offered, up to `limit` of them. -/
def Offer.harvest (offer : Offer) (profile : Profile) (limit : Option Nat) : Harvest :=
  (Feed.unopened offer profile).gather limit #[]

end RedisDump
