import RowReplay.Cache.Basic
import RowReplay.Log.Line

/-! What the cache tells its log. Each event follows from the step that was taken. -/
namespace RowReplay

inductive CacheEvent (κ : Type)
  | hit (key : κ)
  | staleHit (key : κ)
  | miss (key : κ)
  | loaded
  | loadFailed (error : LoadError)
  | loaderCrashed
  | notInstalled
  | invalidated (key : κ) (hadEntry hadPending : Bool)
  | cleared

namespace CacheEvent

variable {κ : Type}

def line (quoted : κ → String) : CacheEvent κ → String
  | .hit key => logLine .debug "cache hit" [("key", quoted key)]
  | .staleHit key =>
    logLine .debug "cache hit past refresh point, refreshing in background" [("key", quoted key)]
  | .miss key => logLine .debug "cache miss, waiting for load" [("key", quoted key)]
  | .loaded => logLine .info "cache entry loaded" []
  | .loadFailed error => logLine .warn "cache load failed" [("error", error.message)]
  | .loaderCrashed => logLine .warn "cache loader panicked, load abandoned" []
  | .notInstalled =>
    logLine .debug "load finished after invalidation, result not installed" []
  | .invalidated key hadEntry hadPending =>
    logLine .debug "cache entry invalidated"
      [("key", quoted key), ("had_entry", boolText hadEntry), ("had_pending", boolText hadPending)]
  | .cleared => logLine .debug "cache cleared" []

end CacheEvent

namespace Cache

variable {κ ν : Type} [DecidableEq κ]

/-- The event of a decided request. -/
def decisionEvent (k : κ) : Decision ν → CacheEvent κ
  | .hit _ => .hit k
  | .staleHit _ => .staleHit k
  | .miss _ => .miss k

/-- The events of finishing a load, seen from the state before it. -/
def completionEvents (c : Cache κ ν) (k : κ) (g : Nat) : LoadResult ν → List (CacheEvent κ)
  | none => [.loaderCrashed]
  | some result =>
    let first : CacheEvent κ := match result with
      | .ok _ => .loaded
      | .error error => .loadFailed error
    if c.isCurrent k g then [first] else [first, .notInstalled]

/-- The event of an invalidation, seen from the state before it. -/
def invalidationEvent (c : Cache κ ν) (k : κ) : CacheEvent κ :=
  .invalidated k (c.entries.contains k) (c.pending.contains k)

end Cache

end RowReplay
