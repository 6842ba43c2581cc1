import RowReplay.Json.Decoding
import RowReplay.Replay.SessionId

/-!
Listeners at the two points of a pipeline's life. A listener has a tag by which it is found and
fires once; firing a point takes all its listeners out, in the order they were registered.
-/
namespace RowReplay

/-- A point in a pipeline's life. -/
inductive ExecutionPoint
  /-- The producer is about to be wired and started. -/
  | beforeProducerStart
  /-- The pipeline runs and takes rows. -/
  | readyForInput
  deriving DecidableEq, Inhabited

namespace ExecutionPoint

def all : List ExecutionPoint := [.beforeProducerStart, .readyForInput]

def name : ExecutionPoint → String
  | .beforeProducerStart => "before_producer_start"
  | .readyForInput => "ready_for_input"

def label : ExecutionPoint → String
  | .beforeProducerStart => "BeforeProducerStart"
  | .readyForInput => "ReadyForInput"

end ExecutionPoint

/-- What a listener is known by. Tags are equal by kind and content, whatever their text. -/
inductive ListenerTag
  /-- The pipeline's own wiring of its producer. -/
  | defaultWiring
  /-- Starts a branch. -/
  | startBranch (branch : String)
  /-- Belongs to a replay session. -/
  | cacheReplay (session : SessionId)
  | named (name : String)
  deriving DecidableEq, Inhabited

def ListenerTag.text : ListenerTag → String
  | .defaultWiring => "default-wiring"
  | .startBranch branch => "start-branch:" ++ branch
  | .cacheReplay session => "cache-replay:" ++ session.text
  | .named name => name

/-- What a listener does when it fires. -/
inductive ListenerAction
  | wireProducer
  | startProducer
  /-- Shuts the producing branch down. -/
  | shutDownProducer
  /-- Opens the gate of a session; dropping the listener unfired abandons the gate. -/
  | openGate (session : SessionId)
  /-- Makes itself known to whoever registered it. -/
  | announce
  deriving DecidableEq, Inhabited

structure Listener where
  tag : ListenerTag
  action : ListenerAction
  deriving DecidableEq, Inhabited

/-- The registered listeners of both points, each in order. -/
structure Listeners where
  beforeStart : List Listener
  ready : List Listener
  deriving DecidableEq, Inhabited

namespace Listeners

def empty : Listeners := ⟨[], []⟩

/-- The listeners of a point. -/
def atPoint (l : Listeners) : ExecutionPoint → List Listener
  | .beforeProducerStart => l.beforeStart
  | .readyForInput => l.ready

def setPoint (l : Listeners) (point : ExecutionPoint) (list : List Listener) : Listeners :=
  match point with
  | .beforeProducerStart => { l with beforeStart := list }
  | .readyForInput => { l with ready := list }

def register (l : Listeners) (point : ExecutionPoint) (listener : Listener) : Listeners :=
  l.setPoint point (l.atPoint point ++ [listener])

/-- Without the listeners of a point whose tag matches. -/
def removeMatching (l : Listeners) (point : ExecutionPoint) (isMatch : ListenerTag → Bool) :
    Listeners :=
  l.setPoint point ((l.atPoint point).filter fun x => !isMatch x.tag)

/-- The listeners that `removeMatching` removes. -/
def matching (l : Listeners) (point : ExecutionPoint) (isMatch : ListenerTag → Bool) :
    List Listener :=
  (l.atPoint point).filter fun x => isMatch x.tag

/-- Without the listeners of a point, which are about to fire. -/
def take (l : Listeners) (point : ExecutionPoint) : Listeners := l.setPoint point []

end Listeners

end RowReplay
