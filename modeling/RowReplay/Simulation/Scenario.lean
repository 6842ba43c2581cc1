import RowReplay.Simulation.Tasks

/-!
Scenarios: a world and a list of steps. Each step is carried out, everything that can run without
time passing runs, and a line records what happened.
-/
namespace RowReplay.Simulation

/-- Which listeners are removed. -/
inductive TagMatch
  | all
  | starts
  | replays
  | named
  | defaults
  | exactly (tag : ListenerTag)

def TagMatch.test : TagMatch → ListenerTag → Bool
  | .all, _ => true
  | .starts, .startBranch _ => true
  | .replays, .cacheReplay _ => true
  | .named, .named _ => true
  | .defaults, .defaultWiring => true
  | .exactly wanted, tag => wanted == tag
  | _, _ => false

/-- One step of a stage's shutdown. -/
inductive StageAction
  | setOutputDone
  | dispose
  | markStopped

def StageAction.apply : StageAction → Stage → Stage
  | .setOutputDone => Stage.setOutputDone
  | .dispose => Stage.dispose
  | .markStopped => Stage.markStopped

/-- Something done with one pipeline. -/
inductive PipeStep
  | replay (rows : RowSequence)
  | replayCached (key : Key)
  | start
  | stop
  | abort
  | run
  | fire (point : ExecutionPoint)
  | register (point : ExecutionPoint) (tag : ListenerTag)
  | remove (point : ExecutionPoint) (tags : TagMatch)
  | state
  | takeOutput
  | receive (n : Nat)
  | consume
  | dropOutput
  | received (field : Option String)
  | mutate (value : Value)
  | put (value : Value) (timeout : Span)
  | finished
  | stopAll
  | stage (index : Nat) (action : StageAction)
  | dropPipe

inductive Step
  | get (key : Key) (n : Nat)
  | cancelGet (n : Nat)
  | cancelReplay (n : Nat)
  | advance (millis : Nat)
  | invalidate (key : Key)
  | invalidateAll
  | peek (key : Key)
  | isLoading (key : Key)
  | release (n : Option Nat)
  | discard
  | rows (rows : RowSequence)
  | pipe (p : Nat) (step : PipeStep)

/-- What a step answers. -/
inductive Answer
  | nothing
  | count (n : Nat)
  | flag (b : Bool)
  | text (s : String)
  | entry (entry : Option (Entry Loaded)) (policy : FreshnessPolicy) (now : ClockReading)
  | rows (rows : RowSequence)
  | fields (values : List (Option Value))
  | received (rows : RowSequence) (ending : String)
  | state (pipeline : Pipeline)

/-- The record of a step. -/
structure Line where
  time : Nat
  answer : Answer
  done : List Done
  started : List Started
  stats : CacheStats
  log : List String
  fired : List String
  pipes : List Pipe
  held : Nat

def addRequest (name : String) (key : Key) (purpose : RequestPurpose) : Sim Unit := do
  let w ← get
  set { w with requests := w.requests ++ [Request.mk name key purpose .submitted] }
  wakeTask (.request w.requests.length)

/-- Starts requests, one after the other. -/
def addGets (key : Key) : Nat → Sim Unit
  | 0 => pure ()
  | n + 1 => do
    let w ← get
    set { w with nextGet := w.nextGet + 1 }
    addRequest ("g" ++ toString w.nextGet) key .answer
    addGets key n

/-- Drops a request that waits: it gives up its place, and a pipeline it kept. -/
def cancelRequest (name : String) : Sim Unit := do
  let w ← get
  match w.requests.findIdx? (·.name == name) with
  | none => pure ()
  | some n =>
    match w.requests[n]? with
    | none => pure ()
    | some request =>
      if let .waiting g place := request.stage then
        modifyWork g fun work => { work with waiters := work.waiters.leave place }
      modifyRequest n fun request => { request with stage := .ended }
      match request.purpose with
      | .replay _ p => releasePipe p
      | .answer => pure ()

/-- Nobody waits any longer for the result of a replay. -/
def cancelReplay (r : Nat) : Sim Unit := do
  match (← get).sessions.get? r with
  | some task => setSession r { task with observed := false }
  | none => cancelRequest ("r" ++ toString r)

/-- Lets up to `n` held tasks run, the oldest first. -/
def release (n : Option Nat) : Sim Nat := do
  let w ← get
  let freed := w.held.take (n.getD w.held.length)
  set { w with held := w.held.drop freed.length }
  freed.forM wakeTask
  return freed.length

/-- Throws the oldest held task away. -/
def discardOldest : Sim Bool := do
  let w ← get
  match w.held with
  | [] => return false
  | t :: rest =>
    set { w with held := rest }
    discard t
    return true

def takeReplayNumber : Sim Nat := do
  let w ← get
  set { w with nextReplay := w.nextReplay + 1 }
  return w.nextReplay

/-- Takes up to `n` rows that are there, letting everything run after each. -/
def receiveNow (p : Nat) : Nat → RowSequence → Sim Answer
  | 0, rows => return .received rows "more"
  | n + 1, rows => do
    match ← receiveRow p with
    | some row =>
      settle
      receiveNow p n (rows ++ [row])
    | none => return .received rows (if hasSenders (← get) p then "empty" else "closed")

def setOutput (p : Nat) (output : Output) : Sim Unit :=
  modifyPipe p fun pipe =>
    match pipe.input with
    | .bounded handOff isAccepting _ => { pipe with input := .bounded handOff isAccepting output }
    | .scripted .. => pipe

/-- The receiving end of a pipeline's hand-off; a scripted input has none. -/
def outputOf (pipe : Pipe) : Output :=
  match pipe.input with
  | .bounded _ _ output => output
  | .scripted .. => .gone

def isScripted (pipe : Pipe) : Bool :=
  match pipe.input with
  | .scripted .. => true
  | .bounded .. => false

/-- Carries out a step on a pipeline. -/
def performOn (p : Nat) (pipe : Pipe) : PipeStep → Sim Answer
  | .replay rows => do
    armReplay (← takeReplayNumber) p rows
    return .nothing
  | .replayCached key => do
    let r ← takeReplayNumber
    addRequest ("r" ++ toString r) key (.replay r p)
    return .nothing
  | .start => do
    operate p Pipeline.start
    return .nothing
  | .stop => do
    operate p Pipeline.stop
    return .nothing
  | .abort => do
    operate p (if isScripted pipe then Pipeline.forgetListeners else Pipeline.abort)
    return .nothing
  | .run => do
    if isScripted pipe then
      setRunning p true
      return .nothing
    else return .text "not scripted"
  | .fire point => do
    if isScripted pipe then
      operate p fun pipeline => pipeline.fire point
      return .count (pipe.pipeline.listeners.atPoint point).length
    else return .text "not scripted"
  | .register point tag => do
    operate p fun pipeline => (pipeline.registerOnce point ⟨tag, .announce⟩, [])
    return .nothing
  | .remove point tags => do
    operate p fun pipeline =>
      let (pipeline, _, effects) := pipeline.removeMatching point tags.test
      (pipeline, effects)
    return .count (pipe.pipeline.listeners.matching point tags.test).length
  | .state => return .state pipe.pipeline
  | .takeOutput => do
    if outputOf pipe = .attached then
      setOutput p .taken
      return .flag true
    else return .flag false
  | .receive n => do
    if outputOf pipe = .taken then receiveNow p n [] else return .text "no output"
  | .consume => do
    if outputOf pipe = .taken then
      setOutput p (.consumed false)
      wakeTask (.consumer p)
    else report ("c" ++ toString p) .noOutput
    return .nothing
  | .dropOutput => do
    if outputOf pipe = .taken then closeOutput p
    return .nothing
  | .received none => return .rows pipe.received
  | .received (some field) => return .fields (pipe.received.map fun row => row.get? field)
  | .mutate value => do
    modifyPipe p fun pipe =>
      { pipe with received := pipe.received.map fun row => row.setValue 0 value }
    return .count pipe.received.length
  | .put value timeout => do
    let w ← get
    set { w with puts := w.puts ++ [PutTask.mk p ⟨countSchema, [value]⟩ timeout false] }
    wakeTask (.put w.puts.length)
    return .nothing
  | .finished => do
    finishInput p
    return .nothing
  | .stopAll => do
    operate p fun pipeline => ({ pipeline with branch := pipeline.branch.stopAll }, [])
    return .nothing
  | .stage index action => do
    match pipe.pipeline.branch.stages[index]? with
    | none => return .text "no such stage"
    | some stage =>
      operate p fun pipeline =>
        let stages := pipeline.branch.stages.modify index action.apply
        ({ pipeline with branch := { pipeline.branch with stages := stages } }, [])
      return .text stage.name
  | .dropPipe => do
    if outputOf pipe = .taken then closeOutput p
    modifyPipe p fun pipe => { pipe with isDropped := true }
    releasePipe p
    return .nothing

/-- Carries out a step, before everything runs. -/
def perform : Step → Sim Answer
  | .get key n => do
    addGets key n
    return .nothing
  | .cancelGet n => do
    cancelRequest ("g" ++ toString n)
    return .nothing
  | .cancelReplay n => do
    cancelReplay n
    return .nothing
  | .advance millis => do
    settle
    let limit := (← now) + millis
    passTime limit roundBound
    return .nothing
  | .invalidate key => do
    let w ← get
    let event : CacheEvent Key := w.cache.invalidationEvent key
    set { w with cache := w.cache.invalidate key, log := w.log ++ [event.line Key.quoted] }
    return .nothing
  | .invalidateAll => do
    let w ← get
    let event : CacheEvent Key := .cleared
    set { w with cache := w.cache.invalidateAll, log := w.log ++ [event.line Key.quoted] }
    return .nothing
  | .peek key => do
    let w ← get
    return .entry (w.cache.peek key) w.cache.policy w.reading
  | .isLoading key => return .flag ((← get).cache.isLoading key)
  | .release n => return .count (← release n)
  | .discard => return .flag (← discardOldest)
  | .rows rows => return .rows rows
  | .pipe p step => do
    match (← get).pipes[p]? with
    | some pipe => if pipe.isDropped then return .text "no such pipe" else performOn p pipe step
    | none => return .text "no such pipe"

/-- One step and its record. -/
def step (s : Step) : Sim Line := do
  modify fun w => { w with done := [], started := [], log := [], fired := [] }
  let answer ← perform s
  settle
  let w ← get
  return ⟨w.agenda.now, answer, w.done, w.started, w.cache.stats, w.log, w.fired, w.pipes,
    w.held.length⟩

/-- The records of all steps. -/
def run (steps : List Step) : Sim (List Line) := steps.mapM step

/-- What a scenario begins with. -/
structure Scenario where
  policy : FreshnessPolicy
  limits : ReplayLimits
  executor : Executor
  script : LoaderScript
  pipes : List Pipe

def Pipe.bounded (capacity : Nat) (branch : Branch) : Pipe :=
  ⟨.fresh branch, .bounded (.fresh capacity) true .attached, 0, [], false⟩

def Pipe.scripted (script : List ScriptedAnswer) (branch : Branch) : Pipe :=
  ⟨.fresh branch, .scripted script 0, 0, [], false⟩

def Scenario.world (s : Scenario) : World where
  agenda := .empty
  executor := s.executor
  held := []
  cache := .empty s.policy
  script := s.script
  works := []
  calls := .empty
  active := .empty
  peak := .empty
  requests := []
  limits := s.limits
  nextGet := 0
  nextReplay := 0
  sessions := .empty
  puts := []
  producers := .empty
  waitingPuts := .empty
  pipes := s.pipes
  done := []
  started := []
  log := []
  fired := []

end RowReplay.Simulation
