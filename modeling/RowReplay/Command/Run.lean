import RowReplay.Command.Arguments
import RowReplay.Config.Printer
import RowReplay.Demo.Report
import RowReplay.Json.Printer
import RowReplay.Log.File

/-!
Carrying out a command line: the configuration is loaded, the log is started, and then the command
is done. A failure is told in one line, or as JSON where that is asked for.
-/
namespace RowReplay.Command

/-- What a program leaves behind. -/
structure Exit where
  code : Nat
  output : String
  errors : String
  deriving DecidableEq, Inhabited

/-- What the program has around it. -/
structure Surroundings where
  files : Files
  environment : List (String × String)
  now : Timestamp

namespace Exit

def success (text : String) : Exit := ⟨0, text ++ "\n", ""⟩

/-- A failure that is told. -/
def failure (json : Bool) (message : String) : Exit :=
  let text :=
    if json then (Json.obj [("error", .str message), ("success", .bool false)]).pretty
    else "Error: " ++ message
  ⟨1, "", text ++ "\n"⟩

/-- The program ends where it cannot go on. -/
def crash : Exit := ⟨101, "", ""⟩

end Exit

def version : String := "rowcache 0.1.0"

/-- The variable that names a configuration file. -/
def configVariable : String := "ROWCACHE_CONFIG"

/-- Done by a command, with its configuration. -/
def perform (json : Bool) (config : Config) (now : Timestamp) : Task → Exit
  | .showConfig => .success (if json then config.toJson.pretty else config.yaml)
  | .demo plan =>
    match config.policy? with
    | none => .crash
    | some policy =>
      match Demo.run plan policy config.limits (Demo.rows? plan.query now plan.rows) with
      | .error e => .failure json e.message
      | .ok (report, _) => .success (if json then report.toJson.pretty else report.text)

/-- Carries out a command line. -/
def run (args : List String) (s : Surroundings) : Exit :=
  match Invocation.ofArguments args (s.environment.lookup configVariable) with
  | .error .displayVersion => .success version
  | .error e => ⟨e.exitCode, "", ""⟩
  | .ok invocation =>
    match Config.load s.files s.environment invocation.configFile with
    | .error e => .failure invocation.json e.message
    | .ok config =>
      match config.logging.file? s.files s.now with
      | .error .unwritable => .crash
      | .error e => .failure invocation.json e.message
      | .ok _ => perform invocation.json config s.now invocation.task

end RowReplay.Command
