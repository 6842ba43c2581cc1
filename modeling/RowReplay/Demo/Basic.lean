import RowReplay.Cache.Basic
import RowReplay.Demo.Exchange
import RowReplay.Demo.Rows
import RowReplay.Pipeline.Basic

/-!
The demonstration: one cached computation replayed into several pipelines, one after the other. Time
passes only while the computation is waited for.
-/
namespace RowReplay.Demo

/-- What to demonstrate. -/
structure Plan where
  rows : Nat
  replays : Nat
  loadDelay : Span
  query : String
  deriving DecidableEq, Inhabited

/-- One replay of a demonstration. -/
structure Summary where
  number : Nat
  delivered : Nat
  consumed : Nat
  total : Nat
  elapsedMillis : Nat
  deriving DecidableEq, Inhabited

structure Report where
  query : String
  replays : List Summary
  cache : CacheStats
  deriving DecidableEq, Inhabited

/-- Why a demonstration has no report. -/
inductive Failure
  | loading (e : CacheError String)
  | replaying (e : ReplayError)

def Failure.message : Failure → String
  | .loading e => "Failed to load rows for replay: " ++ e.message Text.quoted
  | .replaying e => "Cache replay failed: " ++ e.message

/-- Rows that a pipeline holds between its producer and its consumer. -/
def handOffCapacity : Nat := 64

/-- The cache and the clock, in nanoseconds. -/
structure State where
  cache : Cache String RowSequence
  now : Nat

/-- Gets the rows of the query: at once, or by waiting for the computation. -/
def obtain (plan : Plan) (rows : Option RowSequence) (s : State) :
    State × Except (CacheError String) RowSequence :=
  let (cache, decision, _) := s.cache.request plan.query ⟨s.now, s.now⟩
  match decision with
  | .hit entry => (⟨cache, s.now⟩, entry.result plan.query)
  | .staleHit entry => (⟨cache, s.now⟩, entry.result plan.query)
  | .miss g =>
    let cache := cache.begin g
    let now := s.now + plan.loadDelay.nanos
    let loaded : LoadResult RowSequence := rows.map .ok
    let entry := cache.entryOf plan.query ⟨now, now⟩ loaded
    (⟨cache.complete plan.query g ⟨now, now⟩ loaded, now⟩, Cache.answer plan.query entry)

def opensGate (id : SessionId) : PipelineEffect → Bool
  | .gateOpened session => session = id
  | _ => false

/-- Replays rows into a pipeline of its own, which starts once it is armed. -/
def replayInto (limits : ReplayLimits) (number now : Nat) (rows : RowSequence) : Exchange :=
  let id : SessionId := .numbered number
  let branch : Branch := .fresh "service" ["input", "compute", "output"] []
  let (pipeline, effects) := ((Pipeline.fresh branch).arm id).1.start
  let armed : Session := .armed id rows limits
  let session := if effects.any (opensGate id) then armed.openGate else armed
  .run session now handOffCapacity pipeline.running

/-- The replays with these numbers, and where they lead. -/
def replayAll (plan : Plan) (limits : ReplayLimits) (rows : Option RowSequence) :
    List Nat → State → Except Failure (List Summary × State)
  | [], s => .ok ([], s)
  | number :: more, s =>
    match obtain plan rows s with
    | (_, .error e) => .error (.loading e)
    | (next, .ok sequence) =>
      let exchange := replayInto limits number next.now sequence
      match exchange.result with
      | .error e => .error (.replaying e)
      | .ok outcome =>
        let elapsed : Span := ⟨next.now - s.now⟩
        let summary : Summary :=
          ⟨number, outcome.delivered, exchange.consumed, outcome.total, elapsed.millis⟩
        (replayAll plan limits rows more next).map fun (summaries, last) =>
          (summary :: summaries, last)

/-- Runs a demonstration whose rows are none if the computation cannot produce them. The second part
is the time it took. -/
def run (plan : Plan) (policy : FreshnessPolicy) (limits : ReplayLimits)
    (rows : Option RowSequence) : Except Failure (Report × Span) :=
  (replayAll plan limits rows (List.range' 1 plan.replays) ⟨.empty policy, 0⟩).map
    fun (summaries, last) => (⟨plan.query, summaries, last.cache.stats⟩, ⟨last.now⟩)

end RowReplay.Demo
