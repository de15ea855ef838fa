import RedisDump.Deferred

/-!
# Rehearsed decoding

A captured thing whose decoding has a fixed outcome after a fixed number of failures. It stands
for a decoder that is not the library's own.
-/

namespace RedisDump

/-- Something captured together with how its decoding will go. -/
structure Rehearsal where
  /-- What was captured. -/
  captured : Bytes
  /-- The number of attempts that fail first. -/
  failures : Nat := 0
  /-- The elements that the attempts after those answer. -/
  outcome : List Bytes := []
  deriving DecidableEq, Repr

/-- The failure of a rehearsed attempt. -/
inductive Rehearsal.Error where
  | badEnvelope
  deriving DecidableEq, Repr

/-- The text of a rehearsed failure. -/
def Rehearsal.Error.message : Rehearsal.Error → String
  | .badEnvelope => "bad envelope"

instance : Decodable Rehearsal Rehearsal.Error where
  attempt r before := if before < r.failures then .error .badEnvelope else .ok r.outcome

/-- What a deferred list is made of. -/
structure Rehearsal.Plan where
  /-- What was captured; a list that only wraps its elements has captured nothing. -/
  captured? : Option Bytes := some []
  /-- The elements, when they are known from the start. -/
  elements? : Option (List Bytes) := none
  /-- The elements that decoding answers, when there is a decoder. -/
  outcome? : Option (List Bytes) := none
  /-- The number of attempts that fail first. -/
  failures : Nat := 0
  deriving DecidableEq, Repr

/-- The text of the error of a plan with neither elements nor a decoder. -/
def Rehearsal.emptyPlanMessage : String :=
  "LazyList needs either values or a decoder"

/-- The list of a plan, unless it has neither elements nor a decoder. -/
def Rehearsal.Plan.list? (p : Rehearsal.Plan) : Option (Deferred Rehearsal) :=
  match p.elements?, p.outcome? with
  | some elements, _ =>
    some (.realized (p.captured?.map fun bs => { captured := bs }) elements 0)
  | none, some outcome =>
    some (.pending { captured := p.captured?.getD [], failures := p.failures, outcome } 0)
  | none, none => none

end RedisDump
