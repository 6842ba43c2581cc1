import RowReplay.Cache.Freshness

/-! What the cache keeps of one finished load. -/
namespace RowReplay

/-- Why a load failed: a message, and the text of an underlying cause. -/
structure LoadError where
  message : String
  source : Option String
  deriving DecidableEq, Inhabited

namespace LoadError

def ofMessage (message : String) : LoadError := ⟨message, none⟩

/-- A chain of causes, the outermost first, as one message. -/
def ofChain (causes : List String) : LoadError := ofMessage (String.intercalate ": " causes)

end LoadError

/-- One reading of the clocks: the time since some start, which never decreases, and the calendar
time in nanoseconds, which is only kept. -/
structure ClockReading where
  elapsed : Nat
  calendar : Int
  deriving DecidableEq, Inhabited

/-- The result of one finished load. A failed one may keep the value of an earlier load, and then
has that load's time. -/
structure Entry (ν : Type) where
  value : Option ν
  failure : Option LoadError
  loadedAt : ClockReading

namespace Entry

variable {ν : Type}

def loaded (value : ν) (now : ClockReading) : Entry ν := ⟨some value, none, now⟩

def failed (error : LoadError) (now : ClockReading) : Entry ν := ⟨none, some error, now⟩

/-- The earlier entry, with its value and time, marked by a later failure. -/
def failedRefresh (previous : Entry ν) (error : LoadError) : Entry ν :=
  { previous with failure := some error }

/-- The time since the load; zero before it. -/
def age (e : Entry ν) (now : ClockReading) : Span := ⟨now.elapsed - e.loadedAt.elapsed⟩

def freshness (e : Entry ν) (policy : FreshnessPolicy) (now : ClockReading) : Freshness :=
  policy.classify (e.age now)

end Entry

end RowReplay
