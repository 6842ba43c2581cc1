import RowReplay.Cache.Entry
import RowReplay.Cache.Key

/-! What a cache answers when it has no value. -/
namespace RowReplay

inductive CacheError (κ : Type)
  /-- The load failed. -/
  | load (key : κ) (cause : LoadError)
  /-- The load ended without a result. -/
  | abandoned (key : κ)
  deriving DecidableEq

namespace CacheError

variable {κ : Type}

/-- The loader's failure, if it is the reason. -/
def loadError? : CacheError κ → Option LoadError
  | .load _ cause => some cause
  | .abandoned _ => none

def message (quoted : κ → String) : CacheError κ → String
  | .load key cause => "Failed to load cache entry " ++ quoted key ++ ": " ++ cause.message
  | .abandoned key =>
    "Load for cache entry " ++ quoted key ++ " was abandoned before it produced a result"

end CacheError

/-- The value of an entry, or its failure. -/
def Entry.result {κ ν : Type} (key : κ) (e : Entry ν) : Except (CacheError κ) ν :=
  match e.value with
  | some v => .ok v
  | none =>
    .error (.load key (e.failure.getD
      (.ofMessage "cache entry holds neither a value nor an error")))

end RowReplay
