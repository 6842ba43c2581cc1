import RowReplay.Config.Basic
import RowReplay.Yaml.Reader
import RowReplay.Yaml.Plain

/-!
Settings before they have types: values in groups, each with its origin. Layers of them are laid
over each other; a group is joined name by name, anything else replaces what is below.
-/
namespace RowReplay

/-- Where a setting comes from. -/
inductive Origin
  | builtIn
  | file (path : String)
  | environment
  deriving DecidableEq, Inhabited

/-- A value that holds no others. -/
inductive SettingValue
  | unset
  | bool (b : Bool)
  | unsigned (n : Nat)
  | signed (i : Int)
  /-- A whole number beyond 64 bits. -/
  | wide (i : Int)
  | float (x : Binary64)
  | text (s : String)
  deriving DecidableEq

inductive Setting
  | value (origin : Origin) (v : SettingValue)
  | list (origin : Origin) (items : List Setting)
  | group (origin : Origin) (members : List (String × Setting))

namespace Setting

def origin : Setting → Origin
  | .value o _ => o
  | .list o _ => o
  | .group o _ => o

/-- Members with one set, in the place it had or at the end. -/
def setMember (name : String) (s : Setting) : List (String × Setting) → List (String × Setting)
  | [] => [(name, s)]
  | (other, old) :: rest =>
    if other = name then (name, s) :: rest else (other, old) :: setMember name s rest

mutual

/-- A setting laid over another. -/
def overlay (lower : Setting) : Setting → Setting
  | .group o upper =>
    match lower with
    | .group _ members => .group o (membersOver members upper)
    | _ => .group o upper
  | upper => upper

/-- Members laid over others. -/
def membersOver (lower : List (String × Setting)) :
    List (String × Setting) → List (String × Setting)
  | [] => lower
  | (name, upper) :: rest =>
    let joined := match lower.lookup name with
      | some old => overlay old upper
      | none => upper
    membersOver (setMember name joined lower) rest

end

/-- A whole number by its size and sign. -/
def ofInt (hasMinus : Bool) (i : Int) : SettingValue :=
  if hasMinus then if Int64.minValue.toInt ≤ i then .signed i else .wide i
  else if i < UInt64.size then .unsigned i.toNat else .wide i

/-- What a plain scalar stands for. -/
def ofPlain (text : String) : SettingValue :=
  match Yaml.PlainValue.ofText text with
  | .null => .unset
  | .bool b => .bool b
  | .int i => ofInt (text.startsWith "-") i
  | .float x => .float x
  | .text => .text text

/-- What a scalar with a tag of the language stands for; none if it does not fit. -/
def ofTagged? (tag text : String) : Option SettingValue :=
  if tag = Yaml.coreTag ++ "bool" then (Yaml.boolOfWord? text).map .bool
  else if tag = Yaml.coreTag ++ "int" then
    match Yaml.PlainValue.ofText text with
    | .int i => some (ofInt (text.startsWith "-") i)
    | _ => none
  else if tag = Yaml.coreTag ++ "float" then (Yaml.floatOfPlain? text).map .float
  else if tag = Yaml.coreTag ++ "null" then if Yaml.isNullWord text then some .unset else none
  else if tag.startsWith "!" then none
  else some (.text text)

def ofScalar? (tag : Option String) (style : Yaml.ScalarStyle) (text : String) :
    Option SettingValue :=
  match tag with
  | some tag =>
    if tag = "!" then some (if style = .plain then ofPlain text else .text text)
    else ofTagged? tag text
  | none => some (if style = .plain then ofPlain text else .text text)

mutual

/-- The setting that a YAML node holds. Of members with one name the last counts. -/
def ofNode? (o : Origin) : Yaml.Node → Option Setting
  | .scalar tag style text => (ofScalar? tag style text).map (.value o)
  | .sequence items => (ofItems? o items).map (.list o)
  | .mapping members => (ofMembers? o [] members).map (.group o)
  | .named .. => none
  | .reference _ => none

def ofItems? (o : Origin) : List Yaml.Node → Option (List Setting)
  | [] => some []
  | item :: rest =>
    match ofNode? o item with
    | none => none
    | some s => (ofItems? o rest).map (s :: ·)

def ofMembers? (o : Origin) (seen : List (String × Setting)) :
    List (Yaml.Node × Yaml.Node) → Option (List (String × Setting))
  | [] => some seen
  | (.scalar _ _ name, node) :: rest =>
    match ofNode? o node with
    | none => none
    | some s => ofMembers? o (setMember name s seen) rest
  | _ => none

end

/-- Values of a configuration as settings. -/
def ofConfig (c : Config) : Setting :=
  let value (v : SettingValue) : Setting := .value .builtIn v
  let optional {α : Type} (f : α → SettingValue) (v : Option α) : Setting :=
    value ((v.map f).getD .unset)
  .group .builtIn [
    ("cache", .group .builtIn [
      ("refresh_ahead", value (.float c.cache.refreshAhead)),
      ("ttl_secs", value (.unsigned c.cache.ttlSeconds.toNat))]),
    ("logging", .group .builtIn [
      ("enable_console", value (.bool c.logging.console)),
      ("format", value (.text c.logging.format.word)),
      ("level", value (.text c.logging.level)),
      ("log_dir", optional .text c.logging.directory),
      ("rotation", value (.text c.logging.rotation.word))]),
    ("replay", .group .builtIn [
      ("max_put_attempts", optional (fun n => .unsigned n.toNat) c.replay.maxPutAttempts),
      ("put_timeout_ms", value (.unsigned c.replay.putTimeoutMillis.toNat)),
      ("ready_timeout_secs", value (.unsigned c.replay.readyTimeoutSeconds.toNat))])]

end Setting

end RowReplay
