import RowReplay.Pipeline.HandOff
import RowReplay.Replay.Session

/-!
A replay into a hand-off with a consumer that reads to the end, while no time passes. Session and
consumer take turns: the session sends until there is no room, the consumer takes all there is.
-/
namespace RowReplay.Demo

/-- A replay on its way. -/
structure Exchange where
  session : Session
  /-- The pipeline takes rows. -/
  isRunning : Bool
  handOff : HandOff Unit Row
  /-- How many rows the consumer has received. -/
  consumed : Nat

namespace Exchange

/-- A session that delivers looks at its next row, or ends. -/
def present (x : Exchange) : Exchange :=
  match x.session.stage with
  | .delivering d => { x with session := (x.session.next d x.isRunning).1 }
  | _ => x

/-- The session's request for room, made anew unless it has one. -/
def requested (x : Exchange) : HandOff Unit Row :=
  if () ∈ x.handOff.granted ∨ () ∈ x.handOff.waiting then x.handOff
  else (x.handOff.reserve ()).1

/-- The row on offer is refused. -/
def refuse (x : Exchange) (d : Delivery) : Exchange :=
  { x with session := (x.session.refused d x.isRunning).1 }

/-- Offers a row. It is sent if there is room; else the session waits, unless it has no time for
that. The second part tells that the session goes on. -/
def offer (x : Exchange) (d : Delivery) (row : Row) : Exchange × Bool :=
  let handOff := x.requested
  match handOff.room () with
  | .granted =>
    ({ x with handOff := handOff.send () row, session := x.session.accepted d }, true)
  | .waiting =>
    if 0 < x.session.limits.putTimeout.nanos then ({ x with handOff := handOff }, false)
    else ({ x with handOff := (handOff.withdraw ()).1 }.refuse d, true)
  | .closed => ({ x with handOff := handOff }.refuse d, true)

/-- The session's turn, of so many offers at most. -/
def turn : Nat → Exchange → Exchange
  | 0, x => x.present
  | share + 1, x =>
    let x := x.present
    match x.session.stage with
    | .offering ⟨row :: rest, delivered, attempts⟩ =>
      let (x, goesOn) := x.offer ⟨row :: rest, delivered, attempts⟩ row
      if goesOn then turn share x else x
    | _ => x

/-- Takes rows out of a hand-off, so many at most, and counts them. -/
def receiveUpTo : Nat → HandOff Unit Row → HandOff Unit Row × Nat
  | 0, h => (h, 0)
  | n + 1, h =>
    match h.receive with
    | (h, none) => (h, 0)
    | (h, some _) =>
      let (h, taken) := receiveUpTo n h
      (h, taken + 1)

/-- The consumer's turn: it takes all there is. -/
def drain (x : Exchange) : Exchange :=
  let (handOff, taken) := receiveUpTo x.handOff.queue.length x.handOff
  { x with handOff := handOff, consumed := x.consumed + taken }

/-- Turns of both, so many at most, until the session has ended. Each hands over a row at least. -/
def rounds : Nat → Nat → Exchange → Exchange
  | 0, _, x => x
  | n + 1, share, x =>
    let x := (x.turn share).drain
    if x.session.isEnded then x else rounds n turnLength x

/-- The whole exchange of a session whose gate is open or not. -/
def run (session : Session) (now capacity : Nat) (isRunning : Bool) : Exchange :=
  let begun := session.begin now
  let looked := match begun.look now with
    | some (next, _) => next
    | none => begun
  -- looking at the gate is a part of the first turn
  rounds (session.rows.length + 1) (turnLength - 1) ⟨looked, isRunning, .fresh capacity, 0⟩

/-- The session's result; one that has not ended is lost. -/
def result (x : Exchange) : Except ReplayError ReplayOutcome :=
  match x.session.stage with
  | .ended result => result
  | _ => .error .taskLost

end Exchange

end RowReplay.Demo
