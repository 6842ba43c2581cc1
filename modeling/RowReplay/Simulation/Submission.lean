import RowReplay.Simulation.World

/-! A single task that is handed to an executor by someone who waits for its value. -/
namespace RowReplay.Simulation

structure Submission where
  executor : Executor
  delay : Nat
  /-- The value of the task; none if it crashes. -/
  value : Option Int
  deriving DecidableEq

namespace Submission

/-- What the task produces, or nothing if it is dropped before that, and how long it took. A task
that is thrown away takes no time. -/
def result (s : Submission) : Option Int × Nat :=
  match s.executor with
  | .dropping => (none, 0)
  | _ => (s.value, s.delay)

end Submission

end RowReplay.Simulation
