import RowReplay.Config.Environment
import RowReplay.Config.Extraction
import RowReplay.Config.Validation

/-!
Loading a configuration from its layers: what holds when nothing is said, the files, and the
environment. A file that is not there says nothing.
-/
namespace RowReplay

/-- Why no configuration is loaded. -/
inductive LoadFailure
  /-- A file is no YAML document. -/
  | malformed (introduction : String)
  /-- A setting does not fit, or a file holds no settings. -/
  | unfit (introduction : String) (problems : List String)
  /-- The settings cannot be run. -/
  | invalid (e : ConfigError)

def LoadFailure.message : LoadFailure → String
  | .malformed introduction => introduction
  | .unfit introduction problems => introduction ++ ": " ++ String.intercalate "\n" problems
  | .invalid e => e.message

/-- Files by path. -/
abbrev Files := List (String × String)

/-- The parts of a path that lead somewhere. -/
def pathParts (path : String) : List String :=
  ((path.toList.splitOn '/').map String.ofList).filter fun part => part ≠ "" && part ≠ "."

/-- The text of a file, if there is one. -/
def Files.read? (files : Files) (path : String) : Option String :=
  (files.find? fun (name, _) => pathParts name = pathParts path).map Prod.snd

/-- A path without the parts that lead nowhere. -/
def shortPath (path : String) : String :=
  (if path.startsWith "/" then "/" else "") ++ String.intercalate "/" (pathParts path)

namespace Config

/-- What a file's node is called when it holds no settings. -/
def describeRoot : Yaml.Node → String
  | .scalar tag style text =>
    match Setting.ofScalar? tag style text with
    | some (.bool b) => "boolean `" ++ boolText b ++ "`"
    | some (.unsigned n) => "integer `" ++ toString n ++ "`"
    | some (.signed i) => "integer `" ++ toString i ++ "`"
    | some (.wide i) =>
      "integer `" ++ toString i ++ "` as " ++ (if i < 0 then "i128" else "u128")
    | some (.float x) => "floating point `" ++ NumeralLayout.pointed.text x ++ "`"
    | some (.text s) => "string " ++ Text.quoted s
    | _ => "unit value"
  | .sequence _ => "sequence"
  | _ => "map"

/-- What one file says. -/
inductive Layer
  | settings (s : Setting)
  | malformed
  /-- The file holds something else. -/
  | problem (message : String)

/-- Reads a file. An empty one holds no settings. -/
def layerOfText (path text : String) : Layer :=
  let origin : Origin := .file (shortPath path)
  match Yaml.Document.ofText? text with
  | none => .malformed
  | some ⟨none, _, _⟩ => .settings (.group origin [])
  | some ⟨some node, line, column⟩ =>
    let isEmpty := match node with
      | .scalar none .plain "" => true
      | _ => false
    if isEmpty then .settings (.group origin [])
    else
      match node with
      | .mapping _ =>
        match Setting.ofNode? origin node with
        | some s => .settings s
        | none => .malformed
      | _ =>
        let place :=
          if line = 0 && column = 0 then ""
          else " at line " ++ toString (line + 1) ++ " column " ++ toString (column + 1)
        .problem ("invalid type: " ++ describeRoot node ++ ", expected a map" ++ place ++ " in " ++
          origin.text)

/-- The layers of the files that are there. -/
def layers (files : Files) (paths : List String) : List Layer :=
  paths.filterMap fun path => (files.read? path).map (layerOfText path)

def isMalformed : Layer → Bool
  | .malformed => true
  | _ => false

def problem? : Layer → Option String
  | .problem message => some message
  | _ => none

def settings? : Layer → Option Setting
  | .settings s => some s
  | _ => none

/-- Loads what files and variables say. -/
def loadLayers (introduction : String) (files : List Layer) (environment : List (String × String)) :
    Except LoadFailure Config :=
  if files.any isMalformed then .error (.malformed introduction)
  else
    match files.filterMap problem? with
    | [] =>
      let layers := files.filterMap settings? ++ [Environment.settings environment]
      match Setting.readConfig (layers.foldl Setting.overlay (Setting.ofConfig Config.default)) with
      | .error e => .error (.unfit introduction [e.message])
      | .ok config =>
        match config.flaw? with
        | some e => .error (.invalid e)
        | none => .ok config
    | problems => .error (.unfit introduction problems)

/-- The files that are read when none is named. -/
def standardPaths : List String := [".rowcache/config.yaml", ".rowcache/local.yaml"]

/-- Loads a configuration from the standard files or, instead of them, from a named one. -/
def load (files : Files) (environment : List (String × String)) : Option String →
    Except LoadFailure Config
  | none =>
    loadLayers "Failed to extract configuration from figment" (layers files standardPaths)
      environment
  | some path =>
    loadLayers ("Failed to load config from " ++ path) (layers files [path]) environment

end Config

end RowReplay
