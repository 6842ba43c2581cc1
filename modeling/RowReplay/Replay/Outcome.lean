import RowReplay.Json.Basic
import RowReplay.Replay.SessionId
import RowReplay.Time.Span

/-! How a replay ends: with a count of delivered rows, or without having started. -/
namespace RowReplay

/-- The report of a replay that reached its end or was stopped on the way. -/
structure ReplayOutcome where
  session : SessionId
  delivered : Nat
  total : Nat
  deriving DecidableEq, Inhabited

namespace ReplayOutcome

/-- Every row of the sequence was delivered. -/
def isComplete (o : ReplayOutcome) : Bool := o.delivered == o.total

def undelivered (o : ReplayOutcome) : Nat := o.total - o.delivered

def toJson (o : ReplayOutcome) : Json :=
  .obj [("session_id", .str o.session.text), ("delivered", .ofNat o.delivered),
    ("total", .ofNat o.total)]

end ReplayOutcome

/-- Why a replay has no outcome. Partial delivery is none of these. -/
inductive ReplayError
  /-- The pipeline was not ready in time. -/
  | readinessTimeout (waited : Span)
  /-- The listener that would have told that the pipeline is ready is gone. -/
  | readinessAbandoned
  /-- The session's task ended without a result. -/
  | taskLost
  deriving DecidableEq, Inhabited

namespace ReplayError

/-- The pipeline never became ready. -/
def isReadinessFailure : ReplayError → Bool
  | .readinessTimeout _ => true
  | .readinessAbandoned => true
  | .taskLost => false

def message : ReplayError → String
  | .readinessTimeout waited =>
    "Cache replay did not start: pipeline was not ready for input within " ++ waited.text
  | .readinessAbandoned =>
    "Cache replay did not start: pipeline dropped its readiness listener without firing it"
  | .taskLost => "Cache replay task was dropped before it reported a row count"

end ReplayError

/-- What is said of a submitted task that ended without a value. -/
def taskDroppedMessage : String := "Submitted task was dropped before producing a value"

end RowReplay
