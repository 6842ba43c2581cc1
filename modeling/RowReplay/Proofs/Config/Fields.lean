import RowReplay.Proofs.Config.Overlay

/-!
The fields of a configuration: where each is in the settings, how it is read, and that a
configuration that is read from settings has each field as its setting reads.
-/
namespace RowReplay

open Setting

namespace Setting

variable {α : Type} {a fallback : α} {read : Reading α} {name : String} {place : Nat}
  {path : List String} {s m : Setting}

/-- A member that is there is read, in place of what holds when nothing is said. -/
theorem read_of_readField (h : readField read fallback name place path s = .ok a)
    (hm : s.member? name = some m) : read (path ++ [name]) m = .ok a := by
  cases s with
  | value => contradiction
  | list => contradiction
  | group o members =>
    have hm : members.lookup name = some m := hm
    simp only [readField, hm] at h
    exact h

theorem readSection_of_isGroup (expected : String) (read : Bool → Reading α) (path : List String)
    (h : s.isGroup = true) : readSection expected read path s = read true path s := by
  cases s with
  | value => contradiction
  | list => contradiction
  | group => rfl

end Setting

namespace Config

/-- A field of a configuration. -/
inductive Field
  | ttl
  | refreshAhead
  | readyTimeout
  | putTimeout
  | maxPutAttempts
  | level
  | format
  | directory
  | console
  | rotation
  deriving DecidableEq

namespace Field

/-- What a field holds. -/
abbrev Value : Field → Type
  | ttl | readyTimeout | putTimeout => UInt64
  | refreshAhead => Binary64
  | maxPutAttempts => Option UInt32
  | level => String
  | format => LogFormat
  | directory => Option String
  | console => Bool
  | rotation => Rotation

instance : (f : Field) → DecidableEq f.Value
  | ttl | readyTimeout | putTimeout => inferInstanceAs (DecidableEq UInt64)
  | refreshAhead => inferInstanceAs (DecidableEq Binary64)
  | maxPutAttempts => inferInstanceAs (DecidableEq (Option UInt32))
  | level => inferInstanceAs (DecidableEq String)
  | format => inferInstanceAs (DecidableEq LogFormat)
  | directory => inferInstanceAs (DecidableEq (Option String))
  | console => inferInstanceAs (DecidableEq Bool)
  | rotation => inferInstanceAs (DecidableEq Rotation)

/-- The section that a field stands in. -/
def group : Field → String
  | ttl | refreshAhead => "cache"
  | readyTimeout | putTimeout | maxPutAttempts => "replay"
  | level | format | directory | console | rotation => "logging"

def name : Field → String
  | ttl => "ttl_secs"
  | refreshAhead => "refresh_ahead"
  | readyTimeout => "ready_timeout_secs"
  | putTimeout => "put_timeout_ms"
  | maxPutAttempts => "max_put_attempts"
  | level => "level"
  | format => "format"
  | directory => "log_dir"
  | console => "enable_console"
  | rotation => "rotation"

/-- How the setting of a field is read. -/
def read : (f : Field) → Reading f.Value
  | ttl | readyTimeout | putTimeout => readUInt64
  | refreshAhead => readFloat
  | maxPutAttempts => readOptional readUInt32
  | level => readText "a string"
  | format => readChoice "enum LogFormat" (LogFormat.all.map fun f => (f.word, f))
  | directory => readOptional (readText "path string")
  | console => readBool
  | rotation => readChoice "enum RotationPolicy" (Rotation.all.map fun r => (r.word, r))

/-- A field of a configuration. -/
def get (c : Config) : (f : Field) → f.Value
  | ttl => c.cache.ttlSeconds
  | refreshAhead => c.cache.refreshAhead
  | readyTimeout => c.replay.readyTimeoutSeconds
  | putTimeout => c.replay.putTimeoutMillis
  | maxPutAttempts => c.replay.maxPutAttempts
  | level => c.logging.level
  | format => c.logging.format
  | directory => c.logging.directory
  | console => c.logging.console
  | rotation => c.logging.rotation

/-- One of some words is due. -/
def IsChoice (f : Field) : Prop := f = format ∨ f = rotation

theorem group_mem (f : Field) : f.group ∈ ["cache", "logging", "replay"] := by
  cases f <;> decide

/-- A setting has the value of a field. -/
def Reads (f : Field) (s : Setting) (v : f.Value) : Prop := f.read [f.group, f.name] s = .ok v

instance (f : Field) (s : Setting) (v : f.Value) : Decidable (f.Reads s v) := by
  unfold Reads
  infer_instance

/-- A group is read only where one of some words is due. -/
theorem isChoice_of_reads {f : Field} {s : Setting} {v : f.Value} (h : f.Reads s v)
    (hs : s.isGroup = true) : f.IsChoice := by
  cases s with
  | value => contradiction
  | list => contradiction
  | group o members =>
    cases f with
    | format => exact .inl rfl
    | rotation => exact .inr rfl
    | _ => contradiction

end Field

variable {c : Config} {s t m : Setting} {path : List String}

theorem reads_of_readCache {cache : CacheSettings} (h : readCache path s = .ok cache)
    (hs : s.isGroup = true) :
    (s.member? "ttl_secs" = some m →
      readUInt64 (path ++ ["ttl_secs"]) m = .ok cache.ttlSeconds) ∧
    (s.member? "refresh_ahead" = some m →
      readFloat (path ++ ["refresh_ahead"]) m = .ok cache.refreshAhead) := by
  unfold readCache at h
  rw [readSection_of_isGroup _ _ _ hs] at h
  simp only [if_true, bind_eq_ok] at h
  obtain ⟨_, hahead, _, httl, heq⟩ := h
  obtain rfl := Except.ok.inj heq
  exact ⟨read_of_readField httl, read_of_readField hahead⟩

theorem reads_of_readReplay {replay : ReplaySettings} (h : readReplay path s = .ok replay)
    (hs : s.isGroup = true) :
    (s.member? "ready_timeout_secs" = some m →
      readUInt64 (path ++ ["ready_timeout_secs"]) m = .ok replay.readyTimeoutSeconds) ∧
    (s.member? "put_timeout_ms" = some m →
      readUInt64 (path ++ ["put_timeout_ms"]) m = .ok replay.putTimeoutMillis) ∧
    (s.member? "max_put_attempts" = some m →
      readOptional readUInt32 (path ++ ["max_put_attempts"]) m = .ok replay.maxPutAttempts) := by
  unfold readReplay at h
  rw [readSection_of_isGroup _ _ _ hs] at h
  simp only [if_true, bind_eq_ok] at h
  obtain ⟨_, hmost, _, hput, _, hready, heq⟩ := h
  obtain rfl := Except.ok.inj heq
  exact ⟨read_of_readField hready, read_of_readField hput, read_of_readField hmost⟩

theorem reads_of_readLogging {logging : LogSettings} (h : readLogging path s = .ok logging)
    (hs : s.isGroup = true) :
    (s.member? "level" = some m →
      readText "a string" (path ++ ["level"]) m = .ok logging.level) ∧
    (s.member? "format" = some m →
      readChoice "enum LogFormat" (LogFormat.all.map fun f => (f.word, f)) (path ++ ["format"]) m =
        .ok logging.format) ∧
    (s.member? "log_dir" = some m →
      readOptional (readText "path string") (path ++ ["log_dir"]) m = .ok logging.directory) ∧
    (s.member? "enable_console" = some m →
      readBool (path ++ ["enable_console"]) m = .ok logging.console) ∧
    (s.member? "rotation" = some m →
      readChoice "enum RotationPolicy" (Rotation.all.map fun r => (r.word, r))
        (path ++ ["rotation"]) m = .ok logging.rotation) := by
  unfold readLogging at h
  rw [readSection_of_isGroup _ _ _ hs] at h
  simp only [if_true, bind_eq_ok] at h
  obtain ⟨_, hconsole, _, hformat, _, hlevel, _, hdirectory, _, hrotation, heq⟩ := h
  obtain rfl := Except.ok.inj heq
  exact ⟨read_of_readField hlevel, read_of_readField hformat, read_of_readField hdirectory,
    read_of_readField hconsole, read_of_readField hrotation⟩

theorem reads_of_readConfig (h : readConfig s = .ok c) :
    (s.member? "cache" = some t → readCache ["cache"] t = .ok c.cache) ∧
    (s.member? "replay" = some t → readReplay ["replay"] t = .ok c.replay) ∧
    (s.member? "logging" = some t → readLogging ["logging"] t = .ok c.logging) := by
  unfold readConfig at h
  simp only [bind_eq_ok] at h
  obtain ⟨_, hcache, _, hlogging, _, hreplay, heq⟩ := h
  obtain rfl := Except.ok.inj heq
  exact ⟨read_of_readField hcache, read_of_readField hreplay, read_of_readField hlogging⟩

/-- Every field is as its setting reads, when the sections are groups. -/
theorem Field.reads_get (f : Field) (h : readConfig s = .ok c) (hs : Sectioned s)
    (hm : s.at? f.group f.name = some m) : f.Reads m (f.get c) := by
  unfold Setting.at? at hm
  rw [Option.bind_eq_some_iff] at hm
  obtain ⟨t, ht, hm⟩ := hm
  obtain ⟨o, fields, rfl, -⟩ := hs.member? f.group_mem ht
  obtain ⟨hcache, hreplay, hlogging⟩ := reads_of_readConfig (t := .group o fields) h
  cases f with
  | ttl => exact (reads_of_readCache (hcache ht) rfl).1 hm
  | refreshAhead => exact (reads_of_readCache (hcache ht) rfl).2 hm
  | readyTimeout => exact (reads_of_readReplay (hreplay ht) rfl).1 hm
  | putTimeout => exact (reads_of_readReplay (hreplay ht) rfl).2.1 hm
  | maxPutAttempts => exact (reads_of_readReplay (hreplay ht) rfl).2.2 hm
  | level => exact (reads_of_readLogging (hlogging ht) rfl).1 hm
  | format => exact (reads_of_readLogging (hlogging ht) rfl).2.1 hm
  | directory => exact (reads_of_readLogging (hlogging ht) rfl).2.2.1 hm
  | console => exact (reads_of_readLogging (hlogging ht) rfl).2.2.2.1 hm
  | rotation => exact (reads_of_readLogging (hlogging ht) rfl).2.2.2.2 hm

end Config

end RowReplay
