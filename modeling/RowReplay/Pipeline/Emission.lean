import RowReplay.Row.Basic
import RowReplay.Time.Span

/-!
A branch that emits its rows. Each is offered once, with a fixed time limit; the first one that is
refused is the last.
-/
namespace RowReplay

/-- How long a producer waits with each of its rows. -/
def producerTimeout : Span := .ofSeconds 1

/-- The rows that a branch has still to emit. -/
structure Emission where
  remaining : RowSequence

namespace Emission

def start (rows : RowSequence) : Emission := ⟨rows⟩

/-- The row to offer first; none when the emission is over. -/
def next? (e : Emission) : Option Row := e.remaining.head?

/-- The first row was taken. -/
def accepted (e : Emission) : Emission := ⟨e.remaining.tail⟩

/-- The first row was refused, so no other is offered. -/
def refused (_ : Emission) : Emission := ⟨[]⟩

end Emission

end RowReplay
