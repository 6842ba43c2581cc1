import RowReplay.Simulation.Agenda

/-!
Those who wait for one load, in numbered places. Whoever looks at the load is armed in its place;
when something happens all armed ones are told, in the order of their places, and are armed again
when they look again. A place that is given up is the first to be taken.
-/
namespace RowReplay.Simulation

/-- A place among those who wait. -/
inductive Place
  | vacant
  /-- Told, and has not looked since. -/
  | resting
  | armed (party : Party)
  deriving DecidableEq, Inhabited

structure Waiters where
  places : List Place
  /-- The vacant places, the last one given up first. -/
  vacancies : List Nat

namespace Waiters

def empty : Waiters := ⟨[], []⟩

/-- Arms a party in its place, or in a new one. -/
def arm (w : Waiters) (place : Option Nat) (party : Party) : Waiters × Nat :=
  match place with
  | some i => ({ w with places := w.places.set i (.armed party) }, i)
  | none =>
    match w.vacancies with
    | i :: rest => (⟨w.places.set i (.armed party), rest⟩, i)
    | [] => ({ w with places := w.places ++ [.armed party] }, w.places.length)

/-- The armed parties, in order. -/
def armed (w : Waiters) : List Party :=
  w.places.filterMap fun
    | .armed party => some party
    | _ => none

/-- All armed parties are told. -/
def disarm (w : Waiters) : Waiters :=
  { w with places := w.places.map fun
      | .vacant => .vacant
      | _ => .resting }

/-- Gives up a place. -/
def leave (w : Waiters) (i : Nat) : Waiters := ⟨w.places.set i .vacant, i :: w.vacancies⟩

end Waiters

end RowReplay.Simulation
