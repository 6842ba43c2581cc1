import RowReplay.Cache.Freshness
import RowReplay.Config.Basic
import RowReplay.Log.Level

/-! Which settings can be run: the first that cannot is told. -/
namespace RowReplay

/-- A setting that cannot be run, with its value. -/
inductive ConfigError
  | ttl (seconds : UInt64)
  | refreshAhead (fraction : Binary64)
  | readyTimeout (seconds : UInt64)
  | putTimeout (millis : UInt64)
  | maxPutAttempts (attempts : UInt32)
  | logLevel (word : String)
  deriving DecidableEq

namespace ConfigError

/-- The name of the kind of error. -/
def name : ConfigError → String
  | .ttl _ => "InvalidTtl"
  | .refreshAhead _ => "InvalidRefreshAhead"
  | .readyTimeout _ => "InvalidReadyTimeout"
  | .putTimeout _ => "InvalidPutTimeout"
  | .maxPutAttempts _ => "InvalidMaxPutAttempts"
  | .logLevel _ => "InvalidLogLevel"

def message : ConfigError → String
  | .ttl n => "Invalid cache ttl_secs: " ++ toString n.toNat ++ ". Must be at least 1"
  | .refreshAhead x =>
    "Invalid cache refresh_ahead: " ++ NumeralLayout.display.text x ++
      ". Must be greater than 0 and at most 1"
  | .readyTimeout n =>
    "Invalid replay ready_timeout_secs: " ++ toString n.toNat ++ ". Must be at least 1"
  | .putTimeout n =>
    "Invalid replay put_timeout_ms: " ++ toString n.toNat ++ ". Must be at least 1"
  | .maxPutAttempts n =>
    "Invalid replay max_put_attempts: " ++ toString n.toNat ++ ". Must be at least 1 when set"
  | .logLevel word =>
    "Invalid log level: " ++ word ++ ". Must be one of: trace, debug, info, warn, error"

end ConfigError

namespace Config

/-- The first setting that cannot be run. -/
def flaw? (c : Config) : Option ConfigError :=
  if c.cache.ttlSeconds = 0 then some (.ttl c.cache.ttlSeconds)
  else if !c.cache.refreshAhead.isProperFraction then some (.refreshAhead c.cache.refreshAhead)
  else if c.replay.readyTimeoutSeconds = 0 then some (.readyTimeout c.replay.readyTimeoutSeconds)
  else if c.replay.putTimeoutMillis = 0 then some (.putTimeout c.replay.putTimeoutMillis)
  else if c.replay.maxPutAttempts = some 0 then some (.maxPutAttempts 0)
  else if !isLevelWord c.logging.level then some (.logLevel c.logging.level)
  else none

/-- All settings can be run. -/
def IsValid (c : Config) : Prop := c.flaw? = none

instance (c : Config) : Decidable c.IsValid := inferInstanceAs (Decidable (c.flaw? = none))

/-- A configuration can be run if each setting can. -/
theorem isValid_iff (c : Config) :
    c.IsValid ↔ c.cache.ttlSeconds ≠ 0 ∧ c.cache.refreshAhead.isProperFraction = true ∧
      c.replay.readyTimeoutSeconds ≠ 0 ∧ c.replay.putTimeoutMillis ≠ 0 ∧
      c.replay.maxPutAttempts ≠ some 0 ∧ isLevelWord c.logging.level = true := by
  unfold IsValid flaw?
  repeat' split
  all_goals simp_all

/-- Whoever waits for room at all waits for some time. -/
theorem IsValid.putTimeout_pos {c : Config} (h : c.IsValid) :
    0 < c.limits.putTimeout.nanos := by
  obtain ⟨-, -, -, hne, -⟩ := c.isValid_iff.mp h
  have hpos : 0 < c.replay.putTimeoutMillis.toNat :=
    Nat.pos_of_ne_zero fun hzero => hne (UInt64.toNat_inj.mp hzero)
  exact Nat.mul_pos hpos (by decide)

/-- The freshness policy of the cache; there is none if the refresh point is too far off. -/
def policy? (c : Config) : Option FreshnessPolicy :=
  FreshnessPolicy.make? c.ttl c.cache.refreshAhead

end Config

end RowReplay
