import RowReplay.Log.Line
import RowReplay.Replay.Delivery
import RowReplay.Replay.Outcome

/-!
One replay, from being armed to its result. The session waits for its gate, then delivers its rows.
Whichever way it ends once it has begun, it has told its input that no more rows come.
-/
namespace RowReplay

/-- What a session does at most in one turn before it lets others have theirs. -/
def turnLength : Nat := 128

/-- Limits on a replay's patience. -/
structure ReplayLimits where
  readyTimeout : Span
  putTimeout : Span
  maxPutAttempts : Option Nat
  deriving DecidableEq, Inhabited

/-- The gate that the ready-for-input listener opens. -/
inductive Gate
  | shut
  | opened
  /-- The listener is gone, so nothing will open the gate. -/
  | abandoned
  deriving DecidableEq, Inhabited

inductive SessionStage
  /-- Handed to the executor, not yet begun. -/
  | submitted
  /-- Waiting for the gate until a time. -/
  | waiting (deadline : Nat)
  /-- About to look at the next row. -/
  | delivering (delivery : Delivery)
  /-- The first row is on offer. -/
  | offering (delivery : Delivery)
  | ended (result : Except ReplayError ReplayOutcome)

structure Session where
  id : SessionId
  rows : RowSequence
  limits : ReplayLimits
  gate : Gate
  stage : SessionStage

/-- What a session tells its log. -/
inductive SessionEvent
  | ready
  | abandoned
  | timedOut (waited : Span)
  | retrying (attempts : Nat)
  | exhausted (attempts delivered : Nat)
  | complete (delivered : Nat)
  | stoppedEarly (delivered undelivered : Nat)
  deriving DecidableEq

def SessionEvent.line : SessionEvent → String
  | .ready => logLine .debug "pipeline ready, replaying cached rows" []
  | .abandoned =>
    logLine .warn "pipeline dropped its readiness listener, cache replay not started" []
  | .timedOut waited => logLine .warn "cache replay did not start" [("waited", waited.text)]
  | .retrying attempts =>
    logLine .trace "row hand-off timed out, retrying" [("attempts", toString attempts)]
  | .exhausted attempts delivered =>
    logLine .warn "row hand-off abandoned"
      [("attempts", toString attempts), ("delivered", toString delivered)]
  | .complete delivered =>
    logLine .info "cache replay complete" [("delivered", toString delivered)]
  | .stoppedEarly delivered undelivered =>
    logLine .info "cache replay stopped early"
      [("delivered", toString delivered), ("undelivered", toString undelivered)]

/-- What the end of a session means for others. -/
inductive SessionEffect
  /-- The input is told that no more rows come. -/
  | finishInput
  /-- The result is there for whoever waits for it. -/
  | resolve (result : Except ReplayError ReplayOutcome)

namespace Session

def armed (id : SessionId) (rows : RowSequence) (limits : ReplayLimits) : Session :=
  ⟨id, rows, limits, .shut, .submitted⟩

def isEnded (s : Session) : Bool :=
  match s.stage with
  | .ended _ => true
  | _ => false

/-- The session has begun, so its end tells the input that no more rows come. -/
def hasBegun (s : Session) : Bool :=
  match s.stage with
  | .submitted => false
  | _ => true

/-- The gate opens, unless it is abandoned. -/
def openGate (s : Session) : Session :=
  { s with gate := if s.gate = .shut then .opened else s.gate }

/-- The listener that holds the gate is dropped. -/
def abandonGate (s : Session) : Session :=
  { s with gate := if s.gate = .shut then .abandoned else s.gate }

/-- The wait for the gate begins. -/
def begin (s : Session) (now : Nat) : Session :=
  { s with stage := .waiting (now + s.limits.readyTimeout.nanos) }

/-- The session has a turn, which may be its first. -/
def begun (s : Session) (now : Nat) : Session :=
  match s.stage with
  | .submitted => s.begin now
  | _ => s

/-- Looks at the gate; the gate comes before the deadline. Nothing happens while it is shut and
there is time left. -/
def look (s : Session) (now : Nat) : Option (Session × SessionEvent) :=
  match s.stage with
  | .waiting deadline =>
    match s.gate with
    | .opened => some ({ s with stage := .delivering (.start s.rows) }, .ready)
    | .abandoned =>
      some ({ s with stage := .ended (.error .readinessAbandoned) }, .abandoned)
    | .shut =>
      if deadline ≤ now then
        some ({ s with stage := .ended (.error (.readinessTimeout s.limits.readyTimeout)) },
          .timedOut s.limits.readyTimeout)
      else none
  | _ => none

/-- The delivery is over. -/
def finish (s : Session) (delivered : Nat) : Session × SessionEvent :=
  let outcome : ReplayOutcome := ⟨s.id, delivered, s.rows.length⟩
  ({ s with stage := .ended (.ok outcome) },
    if outcome.isComplete then .complete delivered
    else .stoppedEarly delivered outcome.undelivered)

/-- The next row to offer, or the end of the delivery. -/
def next (s : Session) (d : Delivery) (running : Bool) : Session × Except SessionEvent Row :=
  match d.next? running with
  | some row => ({ s with stage := .offering d }, .ok row)
  | none =>
    let (s, event) := s.finish d.delivered
    (s, .error event)

/-- The input took the row on offer. -/
def accepted (s : Session) (d : Delivery) : Session :=
  { s with stage := .delivering d.accepted }

/-- The session's task ends without a result. -/
def lose (s : Session) : Session := { s with stage := .ended (.error .taskLost) }

/-- The input refused the row on offer. -/
def refused (s : Session) (d : Delivery) (running : Bool) : Session × List SessionEvent :=
  match d.refused s.limits.maxPutAttempts running with
  | .stopped =>
    let (s, event) := s.finish d.delivered
    (s, [event])
  | .exhausted attempts =>
    let (s, event) := s.finish d.delivered
    (s, [.exhausted attempts d.delivered, event])
  | .again d => ({ s with stage := .offering d }, [.retrying d.attempts])
  | .overflow => (s.lose, [])

/-- What the end of a session does, in order. Only a session that had begun tells its input. -/
def closing (s : Session) (hadBegun : Bool) : List SessionEffect :=
  match s.stage with
  | .ended result => if hadBegun then [.finishInput, .resolve result] else [.resolve result]
  | _ => []

end Session

end RowReplay
