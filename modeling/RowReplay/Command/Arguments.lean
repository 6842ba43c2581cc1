import RowReplay.Demo.Basic

/-!
Reading a command line. Commands are nested in levels, each with options of its own; a few options
are known at every level, and of one that is given at several the innermost counts. An option's
value may follow it or be attached to it. A value is looked at when the next option is, or at the
end of its level, and the levels end from the innermost one.
-/
namespace RowReplay.Command

/-- A level of nested commands. -/
inductive Level
  | top
  | demo
  | config
  | configShow
  deriving DecidableEq, Inhabited

inductive OptionName
  | json
  | configFile
  | help
  | version
  | rows
  | replays
  | loadDelay
  | query
  deriving DecidableEq, Inhabited

/-- Why a command line is not carried out. -/
inductive ArgumentError
  | displayHelp
  | displayVersion
  /-- Nothing was given where a command is needed. -/
  | displayHelpOnMissing
  | missingSubcommand
  | invalidSubcommand
  | unknownArgument
  | tooManyValues
  /-- A value is missing or empty. -/
  | invalidValue
  /-- A value is not of its kind. -/
  | valueValidation
  /-- An option was given twice. -/
  | argumentConflict
  deriving DecidableEq

namespace ArgumentError

def name : ArgumentError → String
  | .displayHelp => "DisplayHelp"
  | .displayVersion => "DisplayVersion"
  | .displayHelpOnMissing => "DisplayHelpOnMissingArgumentOrSubcommand"
  | .missingSubcommand => "MissingSubcommand"
  | .invalidSubcommand => "InvalidSubcommand"
  | .unknownArgument => "UnknownArgument"
  | .tooManyValues => "TooManyValues"
  | .invalidValue => "InvalidValue"
  | .valueValidation => "ValueValidation"
  | .argumentConflict => "ArgumentConflict"

/-- Asking for help or for the version is no failure. -/
def exitCode : ArgumentError → Nat
  | .displayHelp => 0
  | .displayVersion => 0
  | _ => 2

end ArgumentError

namespace OptionName

/-- The long name. -/
def long : OptionName → String
  | .json => "json"
  | .configFile => "config"
  | .help => "help"
  | .version => "version"
  | .rows => "rows"
  | .replays => "replays"
  | .loadDelay => "load-delay-ms"
  | .query => "query"

/-- The letter, if the option has one. -/
def letter? : OptionName → Option Char
  | .json => some 'j'
  | .configFile => some 'c'
  | .help => some 'h'
  | .version => some 'V'
  | _ => none

def takesValue : OptionName → Bool
  | .json => false
  | .help => false
  | .version => false
  | _ => true

/-- What is wrong with a value, if anything. -/
def flaw? (o : OptionName) (value : String) : Option ArgumentError :=
  let isNumber := (natBelow? UInt64.size value.toList).isSome
  match o with
  | .configFile => if value.isEmpty then some .invalidValue else none
  | .rows => if isNumber then none else some .valueValidation
  | .replays => if isNumber then none else some .valueValidation
  | .loadDelay => if isNumber then none else some .valueValidation
  | _ => none

end OptionName

namespace Level

/-- The options of a level. -/
def options : Level → List OptionName
  | .top => [.json, .configFile, .help, .version]
  | .demo => [.rows, .replays, .loadDelay, .query, .json, .configFile, .help]
  | _ => [.json, .configFile, .help]

/-- The commands of a level. -/
def commands : Level → List (String × Level)
  | .top => [("demo", .demo), ("config", .config)]
  | .config => [("show", .configShow)]
  | _ => []

/-- A level with commands has one for help as well. -/
def helpCommand : String := "help"

/-- A command must be given. -/
def needsCommand (l : Level) : Bool := !l.commands.isEmpty

def longOption? (l : Level) (name : String) : Option OptionName :=
  l.options.find? fun o => o.long = name

def letterOption? (l : Level) (letter : Char) : Option OptionName :=
  l.options.find? fun o => o.letter? = some letter

end Level

/-- The options given at a level, with their values. -/
abbrev Given := List (OptionName × String)

/-- A level that is being read. -/
structure LevelState where
  given : Given
  /-- The last option that takes a value, and its value if it has come. -/
  pending : Option (OptionName × Option String)
  /-- Only plain arguments follow. -/
  isTrailing : Bool

namespace LevelState

def start : LevelState := ⟨[], none, false⟩

/-- The next argument may be the value of an option. -/
def awaitsValue (s : LevelState) : Bool :=
  match s.pending with
  | some (_, none) => true
  | _ => false

/-- Takes an option with its value. -/
def take (s : LevelState) (o : OptionName) (value : String) : Except ArgumentError LevelState :=
  if (s.given.lookup o).isSome then .error .argumentConflict
  else
    match o.flaw? value with
    | some e => .error e
    | none => .ok { s with given := s.given ++ [(o, value)] }

/-- Looks at the option that is pending. -/
def settle (s : LevelState) : Except ArgumentError LevelState :=
  match s.pending with
  | none => .ok s
  | some (_, none) => .error .invalidValue
  | some (o, some value) => { s with pending := none }.take o value

/-- An option that takes no value. -/
def takeFlag (s : LevelState) (o : OptionName) : Except ArgumentError LevelState := do
  let s ← s.settle
  match o with
  | .help => .error .displayHelp
  | .version => .error .displayVersion
  | _ => s.take o ""

/-- An option that takes a value, which is attached or will follow. -/
def takeOption (s : LevelState) (o : OptionName) (attached : Option String) :
    Except ArgumentError LevelState := do
  let s ← s.settle
  match attached with
  | some value => s.take o value
  | none => .ok { s with pending := some (o, none) }

/-- A long option, perhaps with an attached value. -/
def takeLong (s : LevelState) (l : Level) (body : List Char) : Except ArgumentError LevelState :=
  let name := String.ofList (body.takeWhile (· ≠ '='))
  let attached := match body.dropWhile (· ≠ '=') with
    | _ :: value => some (String.ofList value)
    | [] => none
  match l.longOption? name with
  | none => .error .unknownArgument
  | some o =>
    if o.takesValue then s.takeOption o attached
    else if attached.isSome then .error .tooManyValues
    else s.takeFlag o

/-- Letters after one hyphen. One that takes a value takes the rest of them, if there is any. -/
def takeLetters (s : LevelState) (l : Level) : List Char → Except ArgumentError LevelState
  | [] => .ok s
  | letter :: rest =>
    match l.letterOption? letter with
    | none => .error .unknownArgument
    | some o =>
      if o.takesValue then
        match rest with
        | [] => s.takeOption o none
        | '=' :: value => s.takeOption o (some (String.ofList value))
        | value => s.takeOption o (some (String.ofList value))
      else
        match s.takeFlag o with
        | .error e => .error e
        | .ok s => takeLetters s l rest

/-- The end of a level: what the environment says of the configuration file counts as given, and a
command must have come where one is needed. -/
def finish (s : LevelState) (l : Level) (configVariable : Option String) (hasCommand : Bool) :
    Except ArgumentError LevelState := do
  let s ← s.settle
  let fromVariable := if (s.given.lookup .configFile).isSome then none else configVariable
  if let some value := fromVariable then
    if let some e := OptionName.configFile.flaw? value then throw e
  if hasCommand || !l.needsCommand then return s
  else if s.given.isEmpty && fromVariable.isNone then throw .displayHelpOnMissing
  else throw .missingSubcommand

end LevelState

/-- An argument that is neither an option nor a value nor a command. -/
def strayArgument (l : Level) (isTrailing : Bool) (arg : String) : ArgumentError :=
  let isCommand := (l.commands.lookup arg).isSome || (l.needsCommand && arg = Level.helpCommand)
  if isTrailing && isCommand then .unknownArgument
  else if l.needsCommand then .invalidSubcommand
  else .unknownArgument

/-- What comes of asking for help with a command. -/
def helpOn (l : Level) : List String → ArgumentError
  | [] => .displayHelp
  | name :: rest =>
    match l.commands.lookup name with
    | some inner => helpOn inner rest
    | none =>
      if l.needsCommand && name = Level.helpCommand then
        if rest.isEmpty then .displayHelp else .invalidSubcommand
      else .invalidSubcommand

/-- Reads the arguments of a level and of those within it, the outermost first. -/
def readLevel (configVariable : Option String) (l : Level) (s : LevelState) :
    List String → Except ArgumentError (List (Level × Given))
  | [] => (s.finish l configVariable false).map fun s => [(l, s.given)]
  | arg :: rest =>
    let plain : Except ArgumentError (List (Level × Given)) :=
      match s.pending with
      | some (o, none) =>
        readLevel configVariable l { s with pending := some (o, some arg) } rest
      | _ => .error (strayArgument l s.isTrailing arg)
    let goOn (next : Except ArgumentError LevelState) :
        Except ArgumentError (List (Level × Given)) :=
      match next with
      | .error e => .error e
      | .ok s => readLevel configVariable l s rest
    if s.isTrailing then .error (strayArgument l true arg)
    else
      let command := if s.awaitsValue then none else l.commands.lookup arg
      match command with
      | some inner =>
        match readLevel configVariable inner .start rest with
        | .error e => .error e
        | .ok levels => (s.finish l configVariable true).map fun s => (l, s.given) :: levels
      | none =>
        if !s.awaitsValue && l.needsCommand && arg = Level.helpCommand then
          .error (helpOn l rest)
        else
          match arg.toList with
          | ['-', '-'] => readLevel configVariable l { s with isTrailing := true } rest
          | '-' :: '-' :: body => goOn (s.takeLong l body)
          | '-' :: letter :: letters => goOn (s.takeLetters l (letter :: letters))
          | _ => plain

/-- What is to be done. -/
inductive Task
  | demo (plan : Demo.Plan)
  | showConfig
  deriving DecidableEq, Inhabited

/-- A command line that has been read. -/
structure Invocation where
  json : Bool
  configFile : Option String
  task : Task
  deriving DecidableEq, Inhabited

/-- A demonstration of which nothing is said. -/
def defaultPlan : Demo.Plan := ⟨1000, 3, .ofMillis 200, "SELECT * FROM orders"⟩

/-- The plan that options describe. -/
def planOf (given : Given) : Demo.Plan :=
  let number (o : OptionName) (fallback : Nat) : Nat :=
    ((given.lookup o).bind fun value => natBelow? UInt64.size value.toList).getD fallback
  { rows := number .rows defaultPlan.rows
    replays := number .replays defaultPlan.replays
    loadDelay := .ofMillis (number .loadDelay defaultPlan.loadDelay.millis)
    query := (given.lookup .query).getD defaultPlan.query }

/-- What the innermost level is for. -/
def taskOf : List (Level × Given) → Task
  | [(.demo, given)] => .demo (planOf given)
  | _ :: rest => taskOf rest
  | [] => .showConfig

/-- Reads a command line. The variable names a configuration file where no option does. -/
def Invocation.ofArguments (args : List String) (configVariable : Option String) :
    Except ArgumentError Invocation :=
  (readLevel configVariable .top .start args).map fun levels =>
    let files := levels.filterMap fun (_, given) => given.lookup .configFile
    { json := levels.any fun (_, given) => (given.lookup .json).isSome
      configFile := match files.getLast? with
        | some file => some file
        | none => configVariable
      task := taskOf levels }

end RowReplay.Command
