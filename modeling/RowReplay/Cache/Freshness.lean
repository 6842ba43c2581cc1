import RowReplay.Number.Binary64
import RowReplay.Time.Span

/-!
How old an entry may be: its time to live, and the age after which it is reloaded in the background
while it is still served. That age is a fraction of the time to live, computed with floating-point
numbers of seconds and rounded to whole nanoseconds.
-/
namespace RowReplay

namespace Span

/-- The number of seconds nearest to the span: whole seconds and the rest are rounded apart and
their sum once more. -/
def secondsMagnitude? (s : Span) : Option Magnitude := do
  let whole ← Magnitude.ofNat? s.seconds
  let part ← Magnitude.ofNat? s.subsecond
  let second ← Magnitude.ofNat? nanosPerSecond
  whole.add? (← part.div? second)

/-- The span nearest to a number of seconds, ties to even nanoseconds; `none` if it is too long. -/
def ofSecondsMagnitude? (m : Magnitude) : Option Span :=
  if m.units < UInt64.size * Magnitude.unitsOfOne then
    some ⟨roundQuotient (m.units * nanosPerSecond) Magnitude.unitsOfOne⟩
  else none

/-- The product with a factor, computed in seconds. -/
def scaled? (s : Span) (factor : Magnitude) : Option Span := do
  let seconds ← s.secondsMagnitude?
  ofSecondsMagnitude? (← factor.mul? seconds)

end Span

/-- How an age relates to the limits. -/
inductive Freshness
  | fresh
  | refreshAhead
  | expired
  deriving DecidableEq, Inhabited

namespace Freshness

/-- An expired entry is not served: who asks for it waits for a load. -/
def mustWait : Freshness → Bool
  | .expired => true
  | _ => false

def name : Freshness → String
  | .fresh => "fresh"
  | .refreshAhead => "refresh_ahead"
  | .expired => "expired"

end Freshness

/-- The two limits on an entry's age. -/
structure FreshnessPolicy where
  ttl : Span
  refreshAfter : Span
  deriving DecidableEq, Inhabited

namespace FreshnessPolicy

/-- The policy that refreshes after a fraction of the time to live; a fraction outside the unit
interval is moved to its nearer end, and one that is not finite counts as one. There is none if the
product is too long for a span. -/
def make? (ttl : Span) (refreshAhead : Binary64) : Option FreshnessPolicy :=
  (ttl.scaled? refreshAhead.clampToUnit).map fun after => ⟨ttl, after⟩

/-- Both limits belong to the fresher side. -/
def classify (p : FreshnessPolicy) (age : Span) : Freshness :=
  if p.ttl < age then .expired
  else if p.refreshAfter < age then .refreshAhead
  else .fresh

end FreshnessPolicy

end RowReplay
