import RowReplay.Text.Quoted

/-!
Points in time as seconds since 1970 and nanoseconds, and their RFC 3339 text. A nanosecond part of
a second or more stands for a leap second, which only the last second of a minute can have.
-/
namespace RowReplay

/-- The point lies in the calendar's range, and only the last second of a minute is a leap one. -/
def Timestamp.IsValid (seconds : Int) (nanos : Nat) : Prop :=
  -8334601228800 ≤ seconds ∧ seconds ≤ 8210266876799 ∧ nanos < 2000000000 ∧
    (1000000000 ≤ nanos → seconds % 60 = 59)

instance (seconds : Int) (nanos : Nat) : Decidable (Timestamp.IsValid seconds nanos) := by
  unfold Timestamp.IsValid
  infer_instance

/-- A point in time. -/
structure Timestamp where
  seconds : Int
  nanos : Nat
  valid : Timestamp.IsValid seconds nanos
  deriving DecidableEq

namespace Timestamp

def make? (seconds : Int) (nanos : Nat) : Option Timestamp :=
  if h : IsValid seconds nanos then some ⟨seconds, nanos, h⟩ else none

/-- The point some seconds earlier, if the calendar reaches back that far. -/
def earlier? (t : Timestamp) (seconds : Nat) : Option Timestamp :=
  make? (t.seconds - seconds) t.nanos

/-- The start of 1970. -/
def epoch : Timestamp := ⟨0, 0, by decide⟩

instance : Inhabited Timestamp := ⟨epoch⟩

/-- The year, month and day of a day counted from the start of 1970, in the Gregorian calendar
extended both ways. Years are counted from March, in eras of 400 years. -/
def civilDate (day : Int) : Int × Nat × Nat :=
  let shifted := day + 719468
  let era := shifted / 146097
  let dayOfEra := (shifted % 146097).toNat
  let yearOfEra :=
    (dayOfEra - dayOfEra / 1460 + dayOfEra / 36524 - dayOfEra / 146096) / 365
  let dayOfYear := dayOfEra - (365 * yearOfEra + yearOfEra / 4 - yearOfEra / 100)
  let monthFromMarch := (5 * dayOfYear + 2) / 153
  let dayOfMonth := dayOfYear - (153 * monthFromMarch + 2) / 5 + 1
  let month := if monthFromMarch < 10 then monthFromMarch + 3 else monthFromMarch - 9
  let year := (yearOfEra : Int) + era * 400
  (if month ≤ 2 then year + 1 else year, month, dayOfMonth)

/-- Four digits at least, with a sign outside the years 0 to 9999. -/
def yearText (year : Int) : String :=
  if 0 ≤ year ∧ year ≤ 9999 then Text.zeroPadded 4 year.toNat
  else (if year < 0 then "-" else "+") ++ Text.zeroPadded 4 year.natAbs

/-- Decimals in groups of three, as few groups as needed. -/
def fractionText (nanos : Nat) : String :=
  if nanos = 0 then ""
  else if nanos % 1000000 = 0 then "." ++ Text.zeroPadded 3 (nanos / 1000000)
  else if nanos % 1000 = 0 then "." ++ Text.zeroPadded 6 (nanos / 1000)
  else "." ++ Text.zeroPadded 9 nanos

/-- RFC 3339 text with the given name of the zero offset. -/
def rfc3339 (offset : String) (t : Timestamp) : String :=
  let (year, month, day) := civilDate (t.seconds / 86400)
  let secondOfDay := (t.seconds % 86400).toNat
  let leap := 1000000000 ≤ t.nanos
  let second := secondOfDay % 60 + if leap then 1 else 0
  let nanos := if leap then t.nanos - 1000000000 else t.nanos
  yearText year ++ "-" ++ Text.zeroPadded 2 month ++ "-" ++ Text.zeroPadded 2 day ++ "T" ++
    Text.zeroPadded 2 (secondOfDay / 3600) ++ ":" ++
    Text.zeroPadded 2 (secondOfDay / 60 % 60) ++ ":" ++ Text.zeroPadded 2 second ++
    fractionText nanos ++ offset

end Timestamp

end RowReplay
