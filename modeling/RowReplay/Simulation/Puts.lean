import RowReplay.Simulation.Loads

/-!
Putting rows into the inputs of pipelines, and taking them out. A put is answered at once or waits
for room or for its scripted time.
-/
namespace RowReplay.Simulation

/-- A task that still uses the input of a pipeline. -/
def usesInput (w : World) (p : Nat) : Bool :=
  w.sessions.pairs.any (fun (_, t) => t.pipe == p && !t.session.isEnded) ||
    (w.producers.get? p).isSome || w.puts.any (fun t => t.pipe == p && !t.isEnded)

/-- A request that will replay into a pipeline, and so keeps it. -/
def keepsPipe (w : World) (p : Nat) : Bool :=
  w.requests.any fun r => r.stage != .ended && match r.purpose with
    | .replay _ pipe => pipe == p
    | .answer => false

/-- Rows may still come into the hand-off of a pipeline: its input takes them and someone has the
input, or a put waits for room. -/
def hasSenders (w : World) (p : Nat) : Bool :=
  let waits := w.waitingPuts.pairs.any fun (_, pipe, put) =>
    pipe == p && match put with
      | .room _ => true
      | .scripted .. => false
  waits || match w.pipes[p]? with
    | some pipe =>
      match pipe.input with
      | .bounded _ isAccepting _ =>
        isAccepting && (!pipe.isDropped || keepsPipe w p || usesInput w p)
      | .scripted .. => false
    | none => false

/-- The waiting consumer of a pipeline, if there is one, has its turn. -/
def wakeConsumer (p : Nat) : Sim Unit := do
  match (← get).pipes[p]? with
  | some ⟨_, .bounded handOff isAccepting (.consumed true), _, _, _⟩ =>
    modifyPipe p fun pipe =>
      { pipe with input := .bounded handOff isAccepting (.consumed false) }
    wakeTask (.consumer p)
  | _ => pure ()

/-- The consumer is told when nothing more can come. -/
def noticeStreamEnd (p : Nat) : Sim Unit := do
  if !hasSenders (← get) p then wakeConsumer p

def setHandOff (p : Nat) (handOff : HandOff Task Row) : Sim Unit :=
  modifyPipe p fun pipe =>
    match pipe.input with
    | .bounded _ isAccepting output => { pipe with input := .bounded handOff isAccepting output }
    | .scripted .. => pipe

def setWaitingPut (t : Task) (p : Nat) (put : WaitingPut) : Sim Unit :=
  modify fun w => { w with waitingPuts := w.waitingPuts.insert t (p, put) }

/-- A put waits no longer. -/
def clearWaitingPut (t : Task) : Sim Unit := do
  modify fun w => { w with waitingPuts := w.waitingPuts.erase t }
  modifyAgenda (·.cancelTimer (.task t))

/-- The hand-off has answered an offer; room that was given up goes to the next. -/
def answerOffer (p : Nat) (handOff : HandOff Task Row) (next : Option Task) :
    Offer → Sim PutAnswer
  | .accepted => do
    setHandOff p handOff
    wakeConsumer p
    return .accepted
  | .refused => do
    setHandOff p handOff
    next.forM wakeTask
    return .refused
  | .waiting => do
    setHandOff p handOff
    return .pending

def isRunning (p : Nat) : Sim Bool := do
  return ((← get).pipes[p]?).any (·.pipeline.running)

def setRunning (p : Nat) (running : Bool) : Sim Unit :=
  modifyPipe p fun pipe => { pipe with pipeline := { pipe.pipeline with running := running } }

/-- A script takes a row. -/
def takeScripted (p : Nat) (row : Row) : Sim PutAnswer := do
  modifyPipe p fun pipe => { pipe with received := pipe.received ++ [row] }
  return .accepted

/-- A scripted answer that takes its time. -/
def answerLater (t : Task) (p : Nat) (row : Row) (due : Nat) (isTaken : Bool) : Sim PutAnswer := do
  if due ≤ (← now) then
    if isTaken then takeScripted p row else return .refused
  else
    setWaitingPut t p (.scripted due isTaken)
    modifyAgenda (·.setTimer due (.task t))
    return .pending

/-- Offers a row to a pipeline's input. -/
def beginPut (t : Task) (p : Nat) (row : Row) (timeout : Span) : Sim PutAnswer := do
  match (← get).pipes[p]? with
  | none => return .refused
  | some pipe =>
    match pipe.input with
    | .bounded handOff isAccepting _ =>
      if !pipe.pipeline.running || !isAccepting then return .refused
      match handOff.offer t row with
      | (handOff, .waiting) =>
        let deadline := laterBy (← now) timeout
        if deadline ≤ (← now) then
          let (handOff, offer, next) := handOff.review t row true
          answerOffer p handOff next offer
        else
          setWaitingPut t p (.room deadline)
          modifyAgenda (·.setTimer deadline (.task t))
          answerOffer p handOff none .waiting
      | (handOff, offer) => answerOffer p handOff none offer
    | .scripted script attempts =>
      modifyPipe p fun pipe => { pipe with input := .scripted script (attempts + 1) }
      if !pipe.pipeline.running then return .refused
      match script[attempts]?.getD .accept with
      | .accept => takeScripted p row
      | .timeout => answerLater t p row (laterBy (← now) timeout) false
      | .refuse => return .refused
      | .stopAndRefuse =>
        setRunning p false
        return .refused
      | .stopAndAccept =>
        setRunning p false
        takeScripted p row
      | .acceptAfter millis => answerLater t p row ((← now) + millis) true
      | .crash => return .crashed

/-- A waiting put has its turn. Room that was granted comes before the deadline. -/
def resumePut (t : Task) (p : Nat) (row : Row) (put : WaitingPut) : Sim PutAnswer := do
  let finish (answer : Sim PutAnswer) : Sim PutAnswer := do
    clearWaitingPut t
    answer
  match (← get).pipes[p]? with
  | none => finish (return .refused)
  | some pipe =>
    match pipe.input, put with
    | .bounded handOff _ _, .room deadline =>
      match handOff.review t row (deadline ≤ (← now)) with
      | (_, .waiting, _) => return .pending
      | (handOff, offer, next) => finish (answerOffer p handOff next offer)
    | _, .scripted due isTaken =>
      if due ≤ (← now) then
        finish (if isTaken then takeScripted p row else return .refused)
      else return .pending
    | _, _ => finish (return .refused)

/-- Goes on with a task's put: the one that waits, or a new one. -/
def put (t : Task) (p : Nat) (row : Row) (timeout : Span) : Sim PutAnswer := do
  match (← get).waitingPuts.get? t with
  | some (_, waiting) => resumePut t p row waiting
  | none => beginPut t p row timeout

/-- No more rows come into a pipeline's input. -/
def finishInput (p : Nat) : Sim Unit := do
  modifyPipe p fun pipe =>
    let pipe := { pipe with finishedCalls := pipe.finishedCalls + 1 }
    match pipe.input with
    | .bounded handOff _ output => { pipe with input := .bounded handOff false output }
    | .scripted .. => pipe
  noticeStreamEnd p

/-- Takes the oldest row out of a hand-off; room that becomes free goes to the next. -/
def receiveRow (p : Nat) : Sim (Option Row) := do
  match (← get).pipes[p]? with
  | some ⟨_, .bounded handOff _ _, _, _, _⟩ =>
    match handOff.receive with
    | (_, none) => return none
    | (handOff, some (row, next)) =>
      setHandOff p handOff
      modifyPipe p fun pipe => { pipe with received := pipe.received ++ [row] }
      next.forM wakeTask
      return some row
  | _ => return none

/-- The receiving end goes; whoever waits for room is refused. -/
def closeOutput (p : Nat) : Sim Unit := do
  match (← get).pipes[p]? with
  | some ⟨_, .bounded handOff isAccepting _, _, _, _⟩ =>
    let (handOff, refused) := handOff.close
    modifyPipe p fun pipe => { pipe with input := .bounded handOff isAccepting .gone }
    refused.forM wakeTask
  | _ => pure ()

end RowReplay.Simulation
