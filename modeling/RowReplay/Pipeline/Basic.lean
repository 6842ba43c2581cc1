import RowReplay.Log.Line
import RowReplay.Pipeline.Branch
import RowReplay.Pipeline.Listener

/-!
A pipeline's life: its listeners, its producing branch, and whether it runs. Starting fires the
listeners of the first point, sets the pipeline running, and fires those of the second. What is done
on the way is returned as a list of effects, in order.
-/
namespace RowReplay

/-- What a pipeline tells its log. -/
inductive PipelineEvent
  | firing (point : ExecutionPoint) (tag : ListenerTag)
  | running (producer : String)
  | stopped (producer : String)
  | stageStopped (branch stage : String)
  | producerShutDown (branch : String)
  | producerRemoved (producer : String) (unwired unstarted : Nat)

def PipelineEvent.line : PipelineEvent → String
  | .firing point tag =>
    logLine .debug "firing listener" [("point", point.label), ("listener", tag.text)]
  | .running producer => logLine .info "local pipeline running" [("producer", producer)]
  | .stopped producer => logLine .info "local pipeline stopped" [("producer", producer)]
  | .stageStopped branch stage =>
    logLine .trace "stage stopped" [("branch", branch), ("stage", stage)]
  | .producerShutDown branch =>
    logLine .debug "original producer shut down" [("branch", branch)]
  | .producerRemoved producer unwired unstarted =>
    logLine .debug "removed original producer listeners"
      [("producer", producer), ("unwired", toString unwired), ("unstarted", toString unstarted)]

/-- What an operation on a pipeline does, as others see it. -/
inductive PipelineEffect
  | log (event : PipelineEvent)
  /-- The running flag is set. -/
  | flag (running : Bool)
  /-- A call on the branch or on one of its stages. -/
  | shutDown (step : Branch.Step)
  /-- The branch starts to emit its rows. -/
  | emitNativeRows
  | gateOpened (session : SessionId)
  | gateAbandoned (session : SessionId)
  | announced (tag : ListenerTag)

structure Pipeline where
  listeners : Listeners
  branch : Branch
  running : Bool
  /-- The producer was wired. -/
  wired : Bool
  deriving Inhabited

namespace Pipeline

/-- The listeners by which a pipeline runs its own producer. -/
def defaultListeners (producer : String) : Listeners where
  beforeStart := [⟨.defaultWiring, .wireProducer⟩]
  ready := [⟨.startBranch producer, .startProducer⟩]

/-- A pipeline with the default wiring. -/
def fresh (branch : Branch) : Pipeline := ⟨defaultListeners branch.id, branch, false, false⟩

/-- The calls and the log of a branch's shutdown, its stages one after the other. -/
def shutDownEffects (b : Branch) : List PipelineEffect :=
  .shutDown .stopAll ::
    (b.stages.zipIdx.flatMap fun (stage, i) =>
      [.shutDown (.setOutputDone i), .shutDown (.dispose i), .shutDown (.markStopped i),
        .log (.stageStopped b.id stage.name)]) ++
    [.log (.producerShutDown b.id)]

/-- One listener acts. -/
def act (p : Pipeline) (listener : Listener) : Pipeline × List PipelineEffect :=
  match listener.action with
  | .wireProducer => ({ p with wired := true }, [])
  | .startProducer =>
    ({ p with branch := { p.branch with started := true } }, [.emitNativeRows])
  | .shutDownProducer =>
    ({ p with branch := p.branch.shutDown }, shutDownEffects p.branch)
  | .openGate session => (p, [.gateOpened session])
  | .announce => (p, [.announced listener.tag])

/-- Listeners act one after the other; each is logged first. -/
def actAll (p : Pipeline) (point : ExecutionPoint) :
    List Listener → Pipeline × List PipelineEffect
  | [] => (p, [])
  | listener :: rest =>
    let (p, effects) := p.act listener
    let (p, more) := p.actAll point rest
    (p, .log (.firing point listener.tag) :: effects ++ more)

/-- Fires a point: its listeners are taken out and act in order. -/
def fire (p : Pipeline) (point : ExecutionPoint) : Pipeline × List PipelineEffect :=
  { p with listeners := p.listeners.take point }.actAll point (p.listeners.atPoint point)

def start (p : Pipeline) : Pipeline × List PipelineEffect :=
  let (p, before) := p.fire .beforeProducerStart
  let p := { p with running := true }
  let (p, after) := p.fire .readyForInput
  (p, before ++ .flag true :: .log (.running p.branch.id) :: after)

def stop (p : Pipeline) : Pipeline × List PipelineEffect :=
  ({ p with running := false }, [.flag false, .log (.stopped p.branch.id)])

/-- The gates that are abandoned when these listeners are dropped unfired. -/
def abandonedGates (dropped : List Listener) : List PipelineEffect :=
  dropped.filterMap fun listener =>
    match listener.action with
    | .openGate session => some (.gateAbandoned session)
    | _ => none

/-- Forgets all listeners unfired. -/
def forgetListeners (p : Pipeline) : Pipeline × List PipelineEffect :=
  ({ p with listeners := .empty },
    abandonedGates (p.listeners.beforeStart ++ p.listeners.ready))

/-- Stops without having started. -/
def abort (p : Pipeline) : Pipeline × List PipelineEffect :=
  let (p, abandoned) := { p with running := false }.forgetListeners
  (p, .flag false :: abandoned)

def registerOnce (p : Pipeline) (point : ExecutionPoint) (listener : Listener) : Pipeline :=
  { p with listeners := p.listeners.register point listener }

/-- Removes the matching listeners of a point and counts them. -/
def removeMatching (p : Pipeline) (point : ExecutionPoint) (isMatch : ListenerTag → Bool) :
    Pipeline × Nat × List PipelineEffect :=
  let removed := p.listeners.matching point isMatch
  ({ p with listeners := p.listeners.removeMatching point isMatch }, removed.length,
    abandonedGates removed)

/-- Puts a replay session in the producer's place: the producer's listeners are removed, and the
session's own shut the branch down before the start and open the session's gate when rows are
taken. -/
def arm (p : Pipeline) (session : SessionId) : Pipeline × List PipelineEffect :=
  let (p, unwired, first) := p.removeMatching .beforeProducerStart (· = .defaultWiring)
  let (p, unstarted, second) := p.removeMatching .readyForInput (· = .startBranch p.branch.id)
  let p := p.registerOnce .beforeProducerStart ⟨.cacheReplay session, .shutDownProducer⟩
  let p := p.registerOnce .readyForInput ⟨.cacheReplay session, .openGate session⟩
  (p, first ++ second ++ [.log (.producerRemoved p.branch.id unwired unstarted)])

end Pipeline

end RowReplay
