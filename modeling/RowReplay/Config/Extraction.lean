import RowReplay.Config.Setting
import RowReplay.Json.Decoding

/-!
Giving settings their types. Members are visited in the order of their names and the first that does
not fit is told, with its key and its origin.
-/
namespace RowReplay

/-- How a setting does not fit. -/
inductive Misfit
  | wrongType (found expected : String)
  | outOfRange (found expected : String)
  | unknownWord (word : String) (expected : List String)
  deriving DecidableEq

def Misfit.message : Misfit → String
  | .wrongType found expected => "invalid type: found " ++ found ++ ", expected " ++ expected
  | .outOfRange found expected => "invalid value " ++ found ++ ", expected " ++ expected
  | .unknownWord word expected =>
    "unknown variant: found `" ++ word ++ "`, expected `" ++ Json.DecodeError.wordList expected ++
      "`"

namespace Origin

/-- The name of a source in messages. -/
def text : Origin → String
  | .builtIn => "built-in settings"
  | .file path => path ++ " YAML file"
  | .environment => "`ROWCACHE_` environment variable(s)"

/-- A key as the source would write it. -/
def keyText (path : List String) : Origin → String
  | .environment => String.intercalate "." (path.map fun part => part.map Char.toUpper)
  | _ => String.intercalate "." ("default" :: path)

end Origin

/-- A setting that does not fit: where it is and where it comes from. -/
structure ExtractionError where
  misfit : Misfit
  path : List String
  origin : Origin
  deriving DecidableEq

def ExtractionError.message (e : ExtractionError) : String :=
  e.misfit.message ++ " for key " ++ Text.quoted (e.origin.keyText e.path) ++ " in " ++
    e.origin.text

namespace Setting

/-- What a setting is called in messages. -/
def describe : Setting → String
  | .value _ .unset => "unit"
  | .value _ (.bool b) => "bool " ++ boolText b
  | .value _ (.unsigned n) => "unsigned int `" ++ toString n ++ "`"
  | .value _ (.signed i) => "signed int `" ++ toString i ++ "`"
  | .value _ (.wide i) =>
    "integer `" ++ toString i ++ "` as " ++ (if i < 0 then "i128" else "u128")
  | .value _ (.float x) => "float `" ++ NumeralLayout.display.text x ++ "`"
  | .value _ (.text s) => "string " ++ Text.quoted s
  | .list .. => "sequence"
  | .group .. => "map"

/-- Reads a setting at a path. -/
abbrev Reading (α : Type) := List String → Setting → Except ExtractionError α

def misfit {α : Type} (m : Misfit) : Reading α := fun path s => .error ⟨m, path, s.origin⟩

def wrongType {α : Type} (expected : String) : Reading α := fun path s =>
  misfit (.wrongType s.describe expected) path s

/-- A whole number without a minus, below a bound. -/
def readNat (bound : Nat) (expected : String) : Reading Nat := fun path s =>
  match s with
  | .value _ (.unsigned n) =>
    if n < bound then .ok n else misfit (.outOfRange s.describe expected) path s
  | .value _ (.signed i) =>
    if 0 ≤ i ∧ i < bound then .ok i.toNat else misfit (.outOfRange s.describe expected) path s
  | _ => wrongType expected path s

def readUInt64 : Reading UInt64 := fun path s => (readNat UInt64.size "u64" path s).map UInt64.ofNat

def readUInt32 : Reading UInt32 := fun path s => (readNat UInt32.size "u32" path s).map UInt32.ofNat

def readFloat : Reading Binary64 := fun path s =>
  match s with
  | .value _ (.float x) => .ok x
  | .value _ (.unsigned n) => .ok (.ofInt n)
  | .value _ (.signed i) => .ok (.ofInt i)
  | _ => wrongType "f64" path s

def readBool : Reading Bool := fun path s =>
  match s with
  | .value _ (.bool b) => .ok b
  | _ => wrongType "a boolean" path s

def readText (expected : String) : Reading String := fun path s =>
  match s with
  | .value _ (.text text) => .ok text
  | _ => wrongType expected path s

/-- A value that may be unset. -/
def readOptional {α : Type} (read : Reading α) : Reading (Option α) := fun path s =>
  match s with
  | .value _ .unset => .ok none
  | _ => (read path s).map some

/-- The member with the least name. -/
def firstMember? (members : List (String × Setting)) : Option (String × Setting) :=
  members.foldl (fun least m =>
    match least with
    | none => some m
    | some l => if m.1 < l.1 then some m else some l) none

/-- One of some words, or a group that begins with one for which nothing is set. -/
def readChoice {α : Type} (expected : String) (words : List (String × α)) : Reading α :=
  fun path s =>
    let find (word : String) : Except ExtractionError α :=
      match words.lookup word with
      | some a => .ok a
      | none => misfit (.unknownWord word (words.map Prod.fst)) path s
    match s with
    | .value _ (.text word) => find word
    | .group _ members =>
      match firstMember? members with
      | none => wrongType "enum" path s
      | some (word, content) => do
        let a ← find word
        match content with
        | .value _ .unset => .ok a
        | _ => wrongType "unit" (path ++ [word]) content
    | _ => wrongType expected path s

/-- Reads a member of a group, or an item of a list by its place; a missing one is as when nothing
is said. -/
def readField {α : Type} (read : Reading α) (fallback : α) (name : String) (place : Nat) :
    Reading α := fun path s =>
  match s with
  | .group _ members =>
    match members.lookup name with
    | some member => read (path ++ [name]) member
    | none => .ok fallback
  | .list _ items =>
    match items[place]? with
    | some item => read (path ++ [toString place]) item
    | none => .ok fallback
  | _ => .ok fallback

/-- A section holds its fields by name, or in order. -/
def readSection {α : Type} (expected : String) (read : Bool → Reading α) : Reading α :=
  fun path s =>
    match s with
    | .group .. => read true path s
    | .list .. => read false path s
    | _ => wrongType expected path s

def readCache : Reading CacheSettings :=
  readSection "struct CacheConfig" fun byName path s => do
    let unset := Config.default.cache
    let ttl := readField readUInt64 unset.ttlSeconds "ttl_secs" 0 path s
    let ahead := readField readFloat unset.refreshAhead "refresh_ahead" 1 path s
    if byName then
      let refreshAhead ← ahead
      return ⟨← ttl, refreshAhead⟩
    else
      let ttlSeconds ← ttl
      return ⟨ttlSeconds, ← ahead⟩

def readReplay : Reading ReplaySettings :=
  readSection "struct ReplayConfig" fun byName path s => do
    let unset := Config.default.replay
    let ready := readField readUInt64 unset.readyTimeoutSeconds "ready_timeout_secs" 0 path s
    let put := readField readUInt64 unset.putTimeoutMillis "put_timeout_ms" 1 path s
    let most :=
      readField (readOptional readUInt32) unset.maxPutAttempts "max_put_attempts" 2 path s
    if byName then
      let maxPutAttempts ← most
      let putTimeout ← put
      return ⟨← ready, putTimeout, maxPutAttempts⟩
    else
      let readyTimeout ← ready
      let putTimeout ← put
      return ⟨readyTimeout, putTimeout, ← most⟩

def readLogging : Reading LogSettings :=
  readSection "struct LoggingConfig" fun byName path s => do
    let unset := Config.default.logging
    let formats := LogFormat.all.map fun f => (f.word, f)
    let rotations := Rotation.all.map fun r => (r.word, r)
    let level := readField (readText "a string") unset.level "level" 0 path s
    let format := readField (readChoice "enum LogFormat" formats) unset.format "format" 1 path s
    let directory :=
      readField (readOptional (readText "path string")) unset.directory "log_dir" 2 path s
    let console := readField readBool unset.console "enable_console" 3 path s
    let rotation :=
      readField (readChoice "enum RotationPolicy" rotations) unset.rotation "rotation" 4 path s
    if byName then
      let console ← console
      let format ← format
      let level ← level
      let directory ← directory
      return ⟨level, format, directory, console, ← rotation⟩
    else
      let level ← level
      let format ← format
      let directory ← directory
      let console ← console
      return ⟨level, format, directory, console, ← rotation⟩

/-- The configuration that settings make. -/
def readConfig (s : Setting) : Except ExtractionError Config := do
  let unset := Config.default
  let cache ← readField readCache unset.cache "cache" 0 [] s
  let logging ← readField readLogging unset.logging "logging" 2 [] s
  let replay ← readField readReplay unset.replay "replay" 1 [] s
  return ⟨cache, replay, logging⟩

end Setting

end RowReplay
