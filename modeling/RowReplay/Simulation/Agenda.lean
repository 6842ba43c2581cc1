/-!
Who runs next on a simulated clock. Tasks that can run form a queue, each in it at most once; timers
are kept in the order they were set, and those of one time fire in that order. Time passes only when
it is told to, in milliseconds.
-/
namespace RowReplay.Simulation

/-- A task of a simulation. -/
inductive Task
  /-- A request to the cache. -/
  | request (n : Nat)
  /-- The executor's task of a load. -/
  | load (generation : Nat)
  /-- A replay session. -/
  | session (replay : Nat)
  /-- A single put. -/
  | put (n : Nat)
  /-- A pipeline's own producer. -/
  | producer (pipe : Nat)
  /-- A consumer that reads to the end. -/
  | consumer (pipe : Nat)
  deriving DecidableEq, Inhabited

/-- Who can be told that something has happened: a task, or a load, which tells those who wait for
it. -/
inductive Party
  | task (t : Task)
  | load (generation : Nat)
  deriving DecidableEq, Inhabited

structure Timer where
  due : Nat
  party : Party
  deriving DecidableEq

structure Agenda where
  now : Nat
  ready : List Task
  timers : List Timer
  /-- The task that runs. -/
  current : Option Task
  /-- The task that runs was woken, and runs again after those that are ready. -/
  again : Bool

namespace Agenda

def empty : Agenda := ⟨0, [], [], none, false⟩

/-- Makes a task ready, unless it is. -/
def wake (a : Agenda) (t : Task) : Agenda :=
  if a.current = some t then { a with again := true }
  else if t ∈ a.ready then a
  else { a with ready := a.ready ++ [t] }

/-- The first task that is ready begins its turn. -/
def beginTurn (a : Agenda) : Option (Task × Agenda) :=
  match a.ready with
  | [] => none
  | t :: rest => some (t, { a with ready := rest, current := some t, again := false })

/-- The turn is over. -/
def endTurn (a : Agenda) : Agenda :=
  let rested := { a with current := none, again := false }
  match a.current with
  | some t => if a.again then rested.wake t else rested
  | none => rested

def setTimer (a : Agenda) (due : Nat) (party : Party) : Agenda :=
  { a with timers := a.timers ++ [⟨due, party⟩] }

def hasTimer (a : Agenda) (party : Party) : Bool := a.timers.any (·.party = party)

def cancelTimer (a : Agenda) (party : Party) : Agenda :=
  { a with timers := a.timers.filter (·.party ≠ party) }

/-- The earliest time at which a timer is due, up to a limit. -/
def nextDue? (a : Agenda) (limit : Nat) : Option Nat :=
  (a.timers.map (·.due)).min?.filter (· ≤ limit)

/-- Moves the clock and takes out the timers that are due, in the order they were set. -/
def moveTo (a : Agenda) (time : Nat) : Agenda × List Party :=
  let due := a.timers.filter (·.due ≤ time)
  ({ a with now := time, timers := a.timers.filter (time < ·.due) }, due.map (·.party))

end Agenda

end RowReplay.Simulation
