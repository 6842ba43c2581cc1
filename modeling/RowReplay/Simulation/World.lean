import RowReplay.Cache.Event
import RowReplay.Pipeline.Basic
import RowReplay.Pipeline.Emission
import RowReplay.Pipeline.HandOff
import RowReplay.Replay.Session
import RowReplay.Simulation.Waiters

/-!
The whole of a simulation: a cache with a scripted loader, pipelines, replays and those who use
them, on one clock.
-/
namespace RowReplay.Simulation

/-- What a scripted call of the loader produces. -/
structure Loaded where
  /-- Names the call. -/
  label : String
  rows : RowSequence
  deriving Inhabited

inductive CallOutcome
  | returns (rows : RowSequence)
  /-- With a message, or one that names the call. -/
  | fails (message : Option String)
  | crashes

/-- One call of the scripted loader. -/
structure LoaderCall where
  delay : Nat
  outcome : CallOutcome

/-- What each call of each key does; calls beyond a key's list do the default. -/
structure LoaderScript where
  default : LoaderCall
  calls : Table Key (List LoaderCall)

namespace LoaderScript

/-- The `n`-th call of a key, counted from one. -/
def call (s : LoaderScript) (k : Key) (n : Nat) : LoaderCall :=
  (((s.calls.get? k).getD [])[n - 1]?).getD s.default

end LoaderScript

/-- The answer of a call. -/
def LoaderCall.result (c : LoaderCall) (k : Key) (n : Nat) : LoadResult Loaded :=
  match c.outcome with
  | .returns rows => some (.ok ⟨k.plain ++ "-v" ++ toString n, rows⟩)
  | .fails message =>
    let text := message.getD ("load " ++ toString n ++ " of " ++ k.plain ++ " failed")
    some (.error (.ofMessage text))
  | .crashes => none

/-- A call under way. -/
structure RunningCall where
  call : LoaderCall
  number : Nat
  due : Nat

/-- How a load is driven. -/
structure LoadWork where
  waiters : Waiters
  /-- The call of the loader, once it has begun. -/
  running : Option RunningCall
  /-- The load's place among those who wait for its predecessor. -/
  predecessorPlace : Option Nat
  /-- The place of the executor's task. -/
  taskPlace : Option Nat

def LoadWork.fresh : LoadWork := ⟨.empty, none, none, none⟩

/-- What becomes of submitted tasks. -/
inductive Executor
  /-- They run after those that are ready. -/
  | prompt
  /-- They are thrown away. -/
  | dropping
  /-- They are held until they are released. -/
  | manual
  deriving DecidableEq, Inhabited

inductive RequestPurpose
  /-- The value is the answer. -/
  | answer
  /-- The rows are replayed into a pipeline. -/
  | replay (replay pipe : Nat)
  deriving DecidableEq

inductive RequestStage
  | submitted
  | waiting (generation place : Nat)
  | ended
  deriving DecidableEq

/-- A request to the cache. -/
structure Request where
  name : String
  key : Key
  purpose : RequestPurpose
  stage : RequestStage

/-- A session and its surroundings. -/
structure SessionTask where
  session : Session
  pipe : Nat
  /-- Someone waits for the result. -/
  observed : Bool

/-- A single put of a row. -/
structure PutTask where
  pipe : Nat
  row : Row
  timeout : Span
  isEnded : Bool

/-- A put that waits. -/
inductive WaitingPut
  /-- For room in the hand-off, until a time. -/
  | room (deadline : Nat)
  /-- For its scripted time, and is then taken or not. -/
  | scripted (due : Nat) (isTaken : Bool)
  deriving DecidableEq

/-- The answer of a put. -/
inductive PutAnswer
  | accepted
  | refused
  | pending
  | crashed
  deriving DecidableEq

/-- Where the receiving end of a hand-off is. -/
inductive Output
  /-- With the pipeline. -/
  | attached
  /-- Taken out, and read step by step. -/
  | taken
  /-- With a consumer, which waits or not. -/
  | consumed (isWaiting : Bool)
  | gone
  deriving DecidableEq

/-- The answers of a scripted input. -/
inductive ScriptedAnswer
  | accept
  /-- Waits for the put's whole time and refuses. -/
  | timeout
  | refuse
  | stopAndRefuse
  | stopAndAccept
  | acceptAfter (millis : Nat)
  | crash
  deriving DecidableEq

inductive Input
  /-- The bounded hand-off; it takes rows until it is told that no more come. -/
  | bounded (handOff : HandOff Task Row) (isAccepting : Bool) (output : Output)
  /-- Answers by a script; every put counts. -/
  | scripted (script : List ScriptedAnswer) (attempts : Nat)

/-- A pipeline and its input. -/
structure Pipe where
  pipeline : Pipeline
  input : Input
  finishedCalls : Nat
  /-- The rows that came out of the hand-off or that the script took. -/
  received : RowSequence
  /-- Its owner has dropped it. -/
  isDropped : Bool

/-- What a task reports at its end. -/
inductive Report
  | value (label : String)
  | cacheError (e : CacheError Key)
  | outcome (o : ReplayOutcome) (sameSession : Bool)
  | replayError (e : ReplayError)
  | armed
  | accepted
  | rejected (row : Row)
  | closed
  | noOutput

/-- A report with the name of who made it and its time. -/
structure Done where
  name : String
  time : Nat
  report : Report

/-- A call of the loader that has begun. -/
structure Started where
  time : Nat
  key : Key
  number : Nat

structure World where
  agenda : Agenda
  executor : Executor
  held : List Task
  cache : Cache Key Loaded
  script : LoaderScript
  works : List LoadWork
  /-- Calls of the loader so far. -/
  calls : Table Key Nat
  /-- Calls that run now, and the most that ever ran at once. -/
  active : Table Key Nat
  peak : Table Key Nat
  requests : List Request
  limits : ReplayLimits
  nextGet : Nat
  nextReplay : Nat
  sessions : Table Nat SessionTask
  puts : List PutTask
  /-- The producers that emit their rows. -/
  producers : Table Nat Emission
  waitingPuts : Table Task (Nat × WaitingPut)
  pipes : List Pipe
  done : List Done
  started : List Started
  log : List String
  fired : List String

/-- A computation that changes the world. -/
abbrev Sim := StateM World

namespace World

/-- The clocks at the present. -/
def reading (w : World) : ClockReading :=
  ⟨w.agenda.now * Span.nanosPerMilli, w.agenda.now * Span.nanosPerMilli⟩

end World

/-- A time in milliseconds, later by a span; a part of a millisecond counts as a whole one. -/
def laterBy (now : Nat) (span : Span) : Nat :=
  now + (span.nanos + Span.nanosPerMilli - 1) / Span.nanosPerMilli

def modifyAgenda (f : Agenda → Agenda) : Sim Unit := modify fun w => { w with agenda := f w.agenda }

def now : Sim Nat := return (← get).agenda.now

def wakeTask (t : Task) : Sim Unit := modifyAgenda (·.wake t)

def logLines (lines : List String) : Sim Unit := modify fun w => { w with log := w.log ++ lines }

def report (name : String) (r : Report) : Sim Unit :=
  modify fun w => { w with done := w.done ++ [⟨name, w.agenda.now, r⟩] }

def modifyPipe (p : Nat) (f : Pipe → Pipe) : Sim Unit :=
  modify fun w => { w with pipes := w.pipes.modify p f }

def modifyRequest (n : Nat) (f : Request → Request) : Sim Unit :=
  modify fun w => { w with requests := w.requests.modify n f }

def modifyWork (g : Nat) (f : LoadWork → LoadWork) : Sim Unit :=
  modify fun w => { w with works := w.works.modify g f }

def modifyCache (f : Cache Key Loaded → Cache Key Loaded) : Sim Unit :=
  modify fun w => { w with cache := f w.cache }

def setSession (r : Nat) (t : SessionTask) : Sim Unit :=
  modify fun w => { w with sessions := w.sessions.insert r t }

end RowReplay.Simulation
