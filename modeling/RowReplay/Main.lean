import RowReplay.Command.Run

/-!
The program. What a command line can depend on is collected before it is carried out: the variables
by their upper-case names, and the files that may hold settings.
-/
namespace RowReplay.Command

/-- The variables that say something of the configuration: one for each section and each field. -/
def variableNames : List String :=
  let name (path : List String) : String :=
    (Environment.namePrefix ++ String.intercalate "__" path).map Char.toUpper
  let fields (part : String) : Setting → List String
    | .group _ members => members.map fun (field, _) => name [part, field]
    | _ => []
  match Setting.ofConfig Config.default with
  | .group _ sections => sections.flatMap fun (part, s) => name [part] :: fields part s
  | _ => []

/-- The text of a file, if it can be read. -/
def readFile? (path : String) : IO (Option String) := do
  try
    return some (← IO.FS.readFile path)
  catch _ => return none

/-- The names of which something is found, with what is found. -/
def collect (names : List String) (find : String → IO (Option String)) :
    IO (List (String × String)) :=
  names.filterMapM fun name => do return (← find name).map fun text => (name, text)

/-- Carries out a command line and prints what comes of it. -/
def execute (args : List String) : IO UInt32 := do
  let environment ← collect (configVariable :: variableNames) fun name => IO.getEnv name
  let named := match Invocation.ofArguments args (environment.lookup configVariable) with
    | .ok invocation => invocation.configFile.toList
    | .error _ => []
  let files ← collect (Config.standardPaths ++ named) readFile?
  let exit := run args ⟨files, environment, .epoch⟩
  IO.print exit.output
  IO.eprint exit.errors
  return UInt32.ofNat exit.code

end RowReplay.Command

def main (args : List String) : IO UInt32 := RowReplay.Command.execute args
