import RowReplay.Json.Basic
import RowReplay.Number.Decimal
import RowReplay.Replay.Session

/-! Settings of the cache, of replays and of the log, and what they are when nothing is said. -/
namespace RowReplay

/-- How log lines are written. -/
inductive LogFormat
  | json
  | pretty
  deriving DecidableEq, Inhabited

namespace LogFormat

def all : List LogFormat := [.json, .pretty]

def word : LogFormat → String
  | .json => "json"
  | .pretty => "pretty"

/-- The word with a capital letter, for descriptions. -/
def label : LogFormat → String
  | .json => "Json"
  | .pretty => "Pretty"

end LogFormat

/-- How often a new log file is begun. -/
inductive Rotation
  | daily
  | hourly
  | never
  deriving DecidableEq, Inhabited

namespace Rotation

def all : List Rotation := [.daily, .hourly, .never]

def word : Rotation → String
  | .daily => "daily"
  | .hourly => "hourly"
  | .never => "never"

/-- The word with a capital letter, for descriptions. -/
def label : Rotation → String
  | .daily => "Daily"
  | .hourly => "Hourly"
  | .never => "Never"

end Rotation

structure CacheSettings where
  ttlSeconds : UInt64
  /-- The fraction of the time to live after which an entry is refreshed in the background. -/
  refreshAhead : Binary64
  deriving DecidableEq, Inhabited

structure ReplaySettings where
  readyTimeoutSeconds : UInt64
  putTimeoutMillis : UInt64
  /-- How often a row is offered at most; without it, for as long as the pipeline runs. -/
  maxPutAttempts : Option UInt32
  deriving DecidableEq, Inhabited

structure LogSettings where
  level : String
  format : LogFormat
  /-- Where log files are written; without it there are none. -/
  directory : Option String
  console : Bool
  rotation : Rotation
  deriving DecidableEq, Inhabited

structure Config where
  cache : CacheSettings
  replay : ReplaySettings
  logging : LogSettings
  deriving DecidableEq, Inhabited

/-- One half. -/
def Binary64.half : Binary64 := .ofDecimal false 5 (-1)

/-- The settings when nothing is said. -/
def Config.default : Config where
  cache := ⟨300, .half⟩
  replay := ⟨30, 10000, none⟩
  logging := ⟨"info", .pretty, none, true, .daily⟩

namespace Config

def ttl (c : Config) : Span := .ofSeconds c.cache.ttlSeconds.toNat

/-- The limits of replays. -/
def limits (c : Config) : ReplayLimits where
  readyTimeout := .ofSeconds c.replay.readyTimeoutSeconds.toNat
  putTimeout := .ofMillis c.replay.putTimeoutMillis.toNat
  maxPutAttempts := c.replay.maxPutAttempts.map (·.toNat)

/-- The settings as JSON, names sorted. -/
def toJson (c : Config) : Json :=
  .obj [
    ("cache", .obj [
      ("refresh_ahead", .float c.cache.refreshAhead),
      ("ttl_secs", .ofNat c.cache.ttlSeconds.toNat)]),
    ("logging", .obj [
      ("enable_console", .bool c.logging.console),
      ("format", .str c.logging.format.word),
      ("level", .str c.logging.level),
      ("log_dir", Json.ofOption .str c.logging.directory),
      ("rotation", .str c.logging.rotation.word)]),
    ("replay", .obj [
      ("max_put_attempts", Json.ofOption (fun n => .ofNat n.toNat) c.replay.maxPutAttempts),
      ("put_timeout_ms", .ofNat c.replay.putTimeoutMillis.toNat),
      ("ready_timeout_secs", .ofNat c.replay.readyTimeoutSeconds.toNat)])]

end Config

end RowReplay
