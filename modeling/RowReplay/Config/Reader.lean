import RowReplay.Config.Basic
import RowReplay.Yaml.Reader
import RowReplay.Yaml.Plain

/-!
Reading settings from a YAML document. What is left out is as when nothing is said, unknown fields
are passed over, and a known one may stand once. Text may be written in any style, numbers only
plainly.
-/
namespace RowReplay.Config

open Yaml

/-- The text of a scalar that may be a number or a truth value: a plain one, or a literal block with
the tag for it. -/
def plainText? (tag : String) : Node → Option String
  | .scalar _ .plain text => some text
  | .scalar (some t) .literal text => if t = coreTag ++ tag then some text else none
  | _ => none

def word? : Node → Option String
  | .scalar _ _ text => some text
  | _ => none

def uint64? (node : Node) : Option UInt64 :=
  ((plainText? "int" node).bind (natOfPlain? UInt64.size)).map UInt64.ofNat

def uint32? (node : Node) : Option UInt32 :=
  ((plainText? "int" node).bind (natOfPlain? UInt32.size)).map UInt32.ofNat

def float? (node : Node) : Option Binary64 := (plainText? "float" node).bind floatOfPlain?

def bool? (node : Node) : Option Bool := (plainText? "bool" node).bind boolOfWord?

/-- Nothing is written, or a word for it. -/
def isUnset : Node → Option Bool
  | .scalar none .plain text => some (text.isEmpty || isNullWord text)
  | .scalar (some tag) .plain text =>
    if tag = coreTag ++ "null" then if isNullWord text then some true else none else some false
  | _ => some false

/-- A value that may be left unset. -/
def optional? {α : Type} (read : Node → Option α) (node : Node) : Option (Option α) :=
  (isUnset node).bind fun unset => if unset then some none else (read node).map some

/-- One of some words: a scalar, or a local tag with nothing after it. -/
def choice? {α : Type} (words : List (String × α)) : Node → Option α
  | .scalar tag _ text =>
    match tag.map String.toList with
    | some ('!' :: c :: rest) =>
      if text.isEmpty || isNullWord text then words.lookup (String.ofList (c :: rest)) else none
    | _ => words.lookup text
  | _ => none

/-- The members of a section by name. Nothing at all is a section without members. -/
def members? : Node → Option (List (String × Node))
  | .mapping members => members.mapM fun (key, value) => (word? key).map fun name => (name, value)
  | .scalar _ .plain text => if text.isEmpty then some [] else none
  | _ => none

/-- The value of a field that may stand once. -/
def field? {α : Type} (read : Node → Option α) (fallback : α) (name : String)
    (members : List (String × Node)) : Option α :=
  match members.filter (·.1 = name) with
  | [] => some fallback
  | [(_, node)] => read node
  | _ => none

def cacheOfNode? (node : Node) : Option CacheSettings := do
  let members ← members? node
  let unset := Config.default.cache
  return {
    ttlSeconds := ← field? uint64? unset.ttlSeconds "ttl_secs" members
    refreshAhead := ← field? float? unset.refreshAhead "refresh_ahead" members }

def replayOfNode? (node : Node) : Option ReplaySettings := do
  let members ← members? node
  let unset := Config.default.replay
  return {
    readyTimeoutSeconds := ← field? uint64? unset.readyTimeoutSeconds "ready_timeout_secs" members
    putTimeoutMillis := ← field? uint64? unset.putTimeoutMillis "put_timeout_ms" members
    maxPutAttempts := ← field? (optional? uint32?) unset.maxPutAttempts "max_put_attempts" members }

def loggingOfNode? (node : Node) : Option LogSettings := do
  let members ← members? node
  let unset := Config.default.logging
  let formats := LogFormat.all.map fun f => (f.word, f)
  let rotations := Rotation.all.map fun r => (r.word, r)
  return {
    level := ← field? word? unset.level "level" members
    format := ← field? (choice? formats) unset.format "format" members
    directory := ← field? (optional? word?) unset.directory "log_dir" members
    console := ← field? bool? unset.console "enable_console" members
    rotation := ← field? (choice? rotations) unset.rotation "rotation" members }

def ofNode? (node : Node) : Option Config := do
  let members ← members? node
  let unset := Config.default
  return {
    cache := ← field? cacheOfNode? unset.cache "cache" members
    replay := ← field? replayOfNode? unset.replay "replay" members
    logging := ← field? loggingOfNode? unset.logging "logging" members }

/-- The settings that a YAML text holds. -/
def ofYaml? (text : String) : Option Config :=
  match Document.ofText? text with
  | some ⟨some node, _, _⟩ => ofNode? node
  | some ⟨none, _, _⟩ => some Config.default
  | none => none

end RowReplay.Config
