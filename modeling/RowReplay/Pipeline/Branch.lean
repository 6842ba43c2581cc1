import RowReplay.Row.Basic

/-! The branch that produces a pipeline's rows when no replay takes its place. -/
namespace RowReplay

/-- A stage and the steps of its shutdown. -/
structure Stage where
  name : String
  outputDone : Bool
  disposed : Bool
  stopped : Bool
  deriving DecidableEq, Inhabited

namespace Stage

def fresh (name : String) : Stage := ⟨name, false, false, false⟩

def setOutputDone (s : Stage) : Stage := { s with outputDone := true }

def dispose (s : Stage) : Stage := { s with disposed := true }

def markStopped (s : Stage) : Stage := { s with stopped := true }

end Stage

structure Branch where
  id : String
  stages : List Stage
  /-- The rows it emits when it is started. -/
  nativeRows : RowSequence
  stopRequested : Bool
  started : Bool
  deriving Inhabited

namespace Branch

def fresh (id : String) (stages : List String) (nativeRows : RowSequence) : Branch :=
  ⟨id, stages.map Stage.fresh, nativeRows, false, false⟩

/-- A call in the shutdown of a branch. A stage is known by its place. -/
inductive Step
  | stopAll
  | setOutputDone (stage : Nat)
  | dispose (stage : Nat)
  | markStopped (stage : Nat)
  deriving DecidableEq

def stopAll (b : Branch) : Branch := { b with stopRequested := true }

/-- Stops the branch and takes every stage through its whole shutdown. -/
def shutDown (b : Branch) : Branch :=
  { b.stopAll with stages := b.stages.map fun s => s.setOutputDone.dispose.markStopped }

end Branch

end RowReplay
