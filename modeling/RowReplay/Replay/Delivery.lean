import RowReplay.Row.Basic

/-!
Delivering a sequence into an input that may refuse. A refused row is offered again for as long as
the input runs and the limit on attempts is not reached; nothing is skipped. The steps ask the input
for two things only: whether it runs, and whether it takes an offered row.
-/
namespace RowReplay

/-- A delivery between two offers: the rows to come, the first of which was refused `attempts` times
in a row. -/
structure Delivery where
  remaining : RowSequence
  delivered : Nat
  attempts : Nat

/-- Refusals of one row are counted in 32 bits. -/
def attemptBound : Nat := UInt32.size

/-- What follows a refusal. -/
inductive AfterRefusal
  /-- The input has stopped. -/
  | stopped
  /-- The row was refused as often as allowed. -/
  | exhausted (attempts : Nat)
  /-- The same row is offered again. -/
  | again (delivery : Delivery)
  /-- The count of refusals has no successor. -/
  | overflow

namespace Delivery

def start (rows : RowSequence) : Delivery := ⟨rows, 0, 0⟩

/-- The row to offer first; none at the end, or when the input is not running. -/
def next? (d : Delivery) (running : Bool) : Option Row :=
  if running then d.remaining.head? else none

/-- The first row was taken. -/
def accepted (d : Delivery) : Delivery := ⟨d.remaining.tail, d.delivered + 1, 0⟩

/-- The first row was refused. -/
def refused (d : Delivery) (limit : Option Nat) (running : Bool) : AfterRefusal :=
  let attempts := d.attempts + 1
  if attempts = attemptBound then .overflow
  else if !running then .stopped
  else if limit.any (· ≤ attempts) then .exhausted attempts
  else .again { d with attempts := attempts }

end Delivery

end RowReplay
