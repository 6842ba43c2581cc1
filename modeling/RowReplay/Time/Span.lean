import RowReplay.Text.Quoted

/-! Lengths of time in whole nanoseconds. -/
namespace RowReplay

/-- A length of time. -/
structure Span where
  nanos : Nat
  deriving DecidableEq, Inhabited

namespace Span

def nanosPerSecond : Nat := 1000000000

def nanosPerMilli : Nat := 1000000

/-- Spans hold fewer than `2 ^ 64` seconds. -/
def limit : Nat := UInt64.size * nanosPerSecond

def ofParts (seconds nanos : Nat) : Span := ⟨seconds * nanosPerSecond + nanos⟩

def ofSeconds (seconds : Nat) : Span := ⟨seconds * nanosPerSecond⟩

def ofMillis (millis : Nat) : Span := ⟨millis * nanosPerMilli⟩

/-- The whole seconds. -/
def seconds (s : Span) : Nat := s.nanos / nanosPerSecond

/-- The nanoseconds beyond the whole seconds. -/
def subsecond (s : Span) : Nat := s.nanos % nanosPerSecond

def millis (s : Span) : Nat := s.nanos / nanosPerMilli

instance : LT Span := ⟨fun a b => a.nanos < b.nanos⟩

instance : LE Span := ⟨fun a b => a.nanos ≤ b.nanos⟩

instance (a b : Span) : Decidable (a < b) := inferInstanceAs (Decidable (a.nanos < b.nanos))

instance (a b : Span) : Decidable (a ≤ b) := inferInstanceAs (Decidable (a.nanos ≤ b.nanos))

/-- `whole.part` with `places` decimals, without trailing zeros. -/
def decimalText (whole part places : Nat) : String :=
  let decimals := (Text.zeroPadded places part).toList.reverse.dropWhile (· = '0')
  if part = 0 then toString whole
  else toString whole ++ "." ++ String.ofList decimals.reverse

/-- The span in the largest unit of which it holds at least one. -/
def text (s : Span) : String :=
  if nanosPerSecond ≤ s.nanos then decimalText s.seconds s.subsecond 9 ++ "s"
  else if nanosPerMilli ≤ s.nanos then
    decimalText s.millis (s.nanos % nanosPerMilli) 6 ++ "ms"
  else if 1000 ≤ s.nanos then decimalText (s.nanos / 1000) (s.nanos % 1000) 3 ++ "µs"
  else toString s.nanos ++ "ns"

end Span

end RowReplay
