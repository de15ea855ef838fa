import RedisDump.Session

/-!
# What a session can be opened on

Not everything that is offered as a snapshot is a source of bytes; what is not is refused before
anything is read. A file that is named by its path is opened first, which may fail, and is a source
with its contents then. All that is asked of other sources is that they can be read: one may have
nothing to be closed with, or fail to close, and the error of a failing read may be the one that
says that an iteration is over (`Manner`).
-/

namespace RedisDump

/-- The offers that are no source. -/
inductive Misfit where
  | integer
  | nothing
  | list
  /-- Anything else that cannot be read, by the name of its type. -/
  | other (type : String)
  /-- The path of a file that cannot be opened, with the reason. -/
  | unopened (reason : String)
  deriving DecidableEq, Repr

/-- The text of the error that an offer without bytes raises. -/
def Misfit.message : Misfit → String
  | .integer => refusal "int"
  | .nothing => refusal "NoneType"
  | .list => refusal "list"
  | .other type => refusal type
  | .unopened reason => reason
where
  /-- The refusal of an object that is no source. -/
  refusal (type : String) : String :=
    "Cannot read a snapshot from " ++ type

/-- Why a source cannot be closed. -/
inductive ClosingError where
  /-- There is nothing to close it with. -/
  | missing
  /-- It failed to close. -/
  | failed
  deriving DecidableEq, Repr

/-- How often a source is closed when it cannot be. -/
def ClosingError.calls : ClosingError → Nat
  | missing => 0
  | failed => 1

/-- How a source behaves but for the bytes that it hands out. -/
structure Manner where
  /-- Why it cannot be closed, if it cannot. -/
  closing? : Option ClosingError := none
  /-- Whether its own failures say that an iteration is over. -/
  endsIteration : Bool := false
  deriving DecidableEq, Repr

/-- How often a source is closed by a single attempt. -/
def Manner.closeCalls (m : Manner) : Nat :=
  match m.closing? with
  | none => 1
  | some e => e.calls

/-- Something offered as a snapshot. -/
inductive Offer where
  | source (s : Source) (manner : Manner := {})
  /-- The path of a file with the given contents, which can be opened. -/
  | path (contents : Bytes)
  | misfit (m : Misfit)

namespace Offer

/-- How often the source that is offered has been closed. -/
def closeCalls : Offer → Nat
  | source s _ => s.closeCalls
  | path _ | misfit _ => 0

/-- How the source that is offered behaves. -/
def manner : Offer → Manner
  | source _ manner => manner
  | path _ | misfit _ => {}

end Offer

/-- A session over what is offered, if that is a source. -/
def Offer.open (profile : Profile) : Offer → Except Misfit Session
  | source s _ => .ok (Session.start profile s)
  | path contents => .ok (Session.start profile (.ofBytes contents))
  | misfit m => .error m

namespace Session

/-- Closes a session whose source cannot be closed: it is closed all the same, and drops the bytes
not handed out, but notes no event. -/
def closeFailing (s : Session) (e : ClosingError) : Session :=
  if s.phase.isClosed then s
  else
    { s with
      phase := .closed s.phase.version?
      intake := { s.intake with input := s.intake.input.closeFailing e.calls } }

/-- Closes a session over a source that behaves as it does. -/
def closeUnder (s : Session) (manner : Manner) : Session :=
  match manner.closing? with
  | none => s.close
  | some e => s.closeFailing e

end Session

end RedisDump
