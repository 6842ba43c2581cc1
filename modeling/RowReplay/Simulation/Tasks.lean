import RowReplay.Simulation.Puts

/-!
What each task does in its turn: it goes on until it has to wait for something or is over. Also the
round of turns, and the passing of time.
-/
namespace RowReplay.Simulation

/-- A bound on rounds and on the offers of one turn, beyond what any scenario needs. -/
def roundBound : Nat := Nat.pow 2 40

/-- The listener's news reaches a session, which has its turn if it waits. -/
def tellGate (id : SessionId) (change : Session → Session) : Sim Unit := do
  match id with
  | .numbered r =>
    match (← get).sessions.get? r with
    | some task =>
      setSession r { task with session := change task.session }
      if let .waiting _ := task.session.stage then wakeTask (.session r)
    | none => pure ()
  | .uuid _ => pure ()

/-- A scripted pipeline keeps no log of its own life. -/
def isKeptEvent (isScripted : Bool) : PipelineEvent → Bool
  | .firing .. => !isScripted
  | .running _ => !isScripted
  | .stopped _ => !isScripted
  | _ => true

/-- Lets the effects of an operation on a pipeline happen. -/
def carryOut (p : Nat) (effects : List PipelineEffect) : Sim Unit := do
  match (← get).pipes[p]? with
  | none => pure ()
  | some pipe =>
    let isScripted := match pipe.input with
      | .scripted .. => true
      | .bounded .. => false
    for effect in effects do
      match effect with
      | .log event => if isKeptEvent isScripted event then logLines [event.line]
      | .flag _ | .shutDown _ => pure ()
      | .emitNativeRows =>
        if !isScripted then
          let emission : Emission := .start pipe.pipeline.branch.nativeRows
          modify fun w => { w with producers := w.producers.insert p emission }
          wakeTask (.producer p)
      | .gateOpened id => tellGate id Session.openGate
      | .gateAbandoned id => tellGate id Session.abandonGate
      | .announced tag => modify fun w => { w with fired := w.fired ++ [tag.text] }

/-- An operation on a pipeline's life, with its effects. -/
def operate (p : Nat) (operation : Pipeline → Pipeline × List PipelineEffect) : Sim Unit := do
  match (← get).pipes[p]? with
  | none => pure ()
  | some pipe =>
    let (pipeline, effects) := operation pipe.pipeline
    modifyPipe p fun pipe => { pipe with pipeline := pipeline }
    carryOut p effects

/-- A pipeline that its owner dropped goes when nobody keeps it: its listeners are forgotten and its
receiving end closes, unless a consumer has it. -/
def releasePipe (p : Nat) : Sim Unit := do
  let w ← get
  match w.pipes[p]? with
  | none => pure ()
  | some pipe =>
    if pipe.isDropped && !keepsPipe w p then
      operate p Pipeline.forgetListeners
      match pipe.input with
      | .bounded _ _ (.consumed _) => pure ()
      | _ => closeOutput p
      noticeStreamEnd p

def reportResult (r : Nat) : Except ReplayError ReplayOutcome → Sim Unit
  | .ok outcome =>
    report ("r" ++ toString r) (.outcome outcome (outcome.session == .numbered r))
  | .error e => report ("r" ++ toString r) (.replayError e)

/-- A session goes on. If that is its end, it tells its input, and whoever waits for it. -/
def moveSession (r : Nat) (task : SessionTask) (session : Session) : Sim Unit := do
  setSession r { task with session := session }
  for effect in session.closing task.session.hasBegun do
    match effect with
    | .finishInput => finishInput task.pipe
    | .resolve result =>
      noticeStreamEnd task.pipe
      if task.observed then reportResult r result

/-- A session's task is thrown away before its first turn. -/
def discardSession (r : Nat) : Sim Unit := do
  match (← get).sessions.get? r with
  | none => pure ()
  | some task => if !task.session.isEnded then moveSession r task task.session.lose

/-- A task is thrown away unrun. -/
def discard : Task → Sim Unit
  | .session r => discardSession r
  | _ => pure ()

/-- Hands a task to the executor. -/
def submit (t : Task) : Sim Unit := do
  match (← get).executor with
  | .prompt => wakeTask t
  | .dropping => discard t
  | .manual => modify fun w => { w with held := w.held ++ [t] }

/-- Arms a pipeline with a replay of rows. -/
def armReplay (r p : Nat) (rows : RowSequence) : Sim Unit := do
  operate p fun pipeline => pipeline.arm (.numbered r)
  setSession r ⟨.armed (.numbered r) rows (← get).limits, p, true⟩
  submit (.session r)

/-- The input of a pipeline is a hand-off, which others use as well. -/
def hasHandOff (p : Nat) : Sim Bool := do
  match (← get).pipes[p]? with
  | some ⟨_, .bounded .., _, _, _⟩ => return true
  | _ => return false

/-- The session's rows go out until one has to wait, or until its share of the turn is used up: then
it has another turn after those that are ready. Only offers to a hand-off use the share. -/
def deliver (r : Nat) (share : Nat) : Nat → Sim Unit
  | 0 => pure ()
  | fuel + 1 => do
    match (← get).sessions.get? r with
    | none => pure ()
    | some task =>
      match task.session.stage with
      | .delivering d =>
        match task.session.next d (← isRunning task.pipe) with
        | (session, .ok _) => do
          moveSession r task session
          deliver r share fuel
        | (session, .error event) =>
          logLines [event.line]
          moveSession r task session
      | .offering d =>
        match d.remaining with
        | [] => pure ()
        | row :: _ =>
          let shared ← hasHandOff task.pipe
          if shared && share = 0 then
            wakeTask (.session r)
            return
          let share := if shared then share - 1 else share
          match ← put (.session r) task.pipe row task.session.limits.putTimeout with
          | .accepted =>
            moveSession r task (task.session.accepted d)
            deliver r share fuel
          | .refused =>
            let (session, events) := task.session.refused d (← isRunning task.pipe)
            logLines (events.map SessionEvent.line)
            moveSession r task session
            deliver r share fuel
          | .pending => pure ()
          | .crashed => moveSession r task task.session.lose
      | _ => pure ()

def sessionTurn (r : Nat) : Sim Unit := do
  match (← get).sessions.get? r with
  | none => pure ()
  | some task =>
    let instant := (← now) * Span.nanosPerMilli
    let task := { task with session := task.session.begun instant }
    match task.session.stage with
    | .waiting _ =>
      match task.session.look instant with
      | none =>
        setSession r task
        if !(← get).agenda.hasTimer (.task (.session r)) then
          let due := laterBy (← now) task.session.limits.readyTimeout
          modifyAgenda (·.setTimer due (.task (.session r)))
      | some (session, event) =>
        modifyAgenda (·.cancelTimer (.task (.session r)))
        logLines [event.line]
        moveSession r task session
        -- looking at the gate is a part of the turn
        deliver r (turnLength - 1) roundBound
    | .ended _ => pure ()
    | _ => deliver r turnLength roundBound

/-- A producer emits its rows, and then tells that no more come. -/
def emitRows (p : Nat) : Nat → Sim Unit
  | 0 => pure ()
  | fuel + 1 => do
    match (← get).producers.get? p with
    | none => pure ()
    | some emission =>
      match emission.next? with
      | none =>
        modify fun w => { w with producers := w.producers.erase p }
        finishInput p
      | some row =>
        match ← put (.producer p) p row producerTimeout with
        | .accepted =>
          modify fun w => { w with producers := w.producers.insert p emission.accepted }
          emitRows p fuel
        | .pending => pure ()
        | _ =>
          modify fun w => { w with producers := w.producers.insert p emission.refused }
          emitRows p fuel

def putTurn (n : Nat) : Sim Unit := do
  match (← get).puts[n]? with
  | none => pure ()
  | some task =>
    if task.isEnded then return
    let finish (r : Option Report) : Sim Unit := do
      modify fun w => { w with puts := w.puts.modify n fun t => { t with isEnded := true } }
      r.forM (report ("p" ++ toString n))
      noticeStreamEnd task.pipe
    match ← put (.put n) task.pipe task.row task.timeout with
    | .accepted => finish (some .accepted)
    | .refused => finish (some (.rejected task.row))
    | .pending => pure ()
    | .crashed => finish none

/-- A consumer reads to the end. -/
def consume (p : Nat) : Nat → Sim Unit
  | 0 => pure ()
  | fuel + 1 => do
    match ← receiveRow p with
    | some _ => consume p fuel
    | none =>
      if hasSenders (← get) p then
        modifyPipe p fun pipe =>
          match pipe.input with
          | .bounded handOff isAccepting (.consumed _) =>
            { pipe with input := .bounded handOff isAccepting (.consumed true) }
          | _ => pipe
      else
        report ("c" ++ toString p) .closed
        closeOutput p

/-- A request has its answer. -/
def answerRequest (n : Nat) (request : Request) (result : Except (CacheError Key) Loaded) :
    Sim Unit := do
  match request.purpose, result with
  | .answer, .ok loaded =>
    modifyRequest n fun request => { request with stage := .ended }
    report request.name (.value loaded.label)
  | .answer, .error e =>
    modifyRequest n fun request => { request with stage := .ended }
    report request.name (.cacheError e)
  | .replay r p, .ok loaded =>
    logLines [logLine .debug "replaying cached rows" [("rows", toString loaded.rows.length)]]
    armReplay r p loaded.rows
    report (request.name ++ "-armed") .armed
    modifyRequest n fun request => { request with stage := .ended }
    releasePipe p
  | .replay _ p, .error e =>
    report request.name (.cacheError e)
    modifyRequest n fun request => { request with stage := .ended }
    releasePipe p

/-- A request looks at the load it waits for. -/
def awaitLoad (n : Nat) (request : Request) (g : Nat) (place : Option Nat) : Sim Unit := do
  let (place, finished) ← drive g (.task (.request n)) place
  if finished then answerRequest n request (Cache.answer request.key (outcomeOf (← get) g))
  else
    modifyRequest n fun request => { request with stage := .waiting g (place.getD 0) }

def requestTurn (n : Nat) : Sim Unit := do
  let w ← get
  match w.requests[n]? with
  | none => pure ()
  | some request =>
    match request.stage with
    | .submitted =>
      let (cache, decision, started) := w.cache.request request.key w.reading
      let event : CacheEvent Key := Cache.decisionEvent request.key decision
      set { w with cache := cache, log := w.log ++ [event.line Key.quoted] }
      if let some g := started then
        modify fun w => { w with works := w.works ++ [.fresh] }
        submit (.load g)
      match decision with
      | .hit entry => answerRequest n request (entry.result request.key)
      | .staleHit entry => answerRequest n request (entry.result request.key)
      | .miss g => awaitLoad n request g none
    | .waiting g place => awaitLoad n request g (some place)
    | .ended => pure ()

/-- A task has its turn. -/
def takeTurn : Task → Sim Unit
  | .request n => requestTurn n
  | .load g => loadTurn g
  | .session r => sessionTurn r
  | .put n => putTurn n
  | .producer p => emitRows p roundBound
  | .consumer p => consume p roundBound

/-- Turns are taken until nobody is ready. -/
def settleFor : Nat → Sim Unit
  | 0 => pure ()
  | fuel + 1 => do
    let w ← get
    match w.agenda.beginTurn with
    | none => pure ()
    | some (t, agenda) =>
      set { w with agenda := agenda }
      takeTurn t
      modifyAgenda Agenda.endTurn
      settleFor fuel

def settle : Sim Unit := settleFor roundBound

/-- The clock moves, and whoever has a timer that is due is told. -/
def moveClock (time : Nat) : Sim Unit := do
  let w ← get
  let (agenda, parties) := w.agenda.moveTo time
  set { w with agenda := agenda }
  parties.forM wakeParty

/-- Time passes up to a limit; what is due on the way happens in order. -/
def passTime (limit : Nat) : Nat → Sim Unit
  | 0 => pure ()
  | fuel + 1 => do
    match (← get).agenda.nextDue? limit with
    | some due =>
      moveClock due
      settle
      passTime limit fuel
    | none => moveClock limit

end RowReplay.Simulation
