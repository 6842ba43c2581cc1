/-! Log lines: a level, a message, and named values. -/
namespace RowReplay

/-- A level of logging, the least severe first. -/
inductive LogLevel
  | trace | debug | info | warn | error
  deriving DecidableEq, Inhabited

namespace LogLevel

def all : List LogLevel := [.trace, .debug, .info, .warn, .error]

/-- The word that selects the level. -/
def word : LogLevel → String
  | .trace => "trace"
  | .debug => "debug"
  | .info => "info"
  | .warn => "warn"
  | .error => "error"

/-- The mark of the level in log lines. -/
def mark : LogLevel → String
  | .trace => "TRACE"
  | .debug => "DEBUG"
  | .info => "INFO"
  | .warn => "WARN"
  | .error => "ERROR"

end LogLevel

/-- The text of a line, the values in the order they are given. -/
def logLine (level : LogLevel) (message : String) (fields : List (String × String)) : String :=
  level.mark ++ " " ++ message ++ String.join (fields.map fun (k, v) => " " ++ k ++ "=" ++ v)

def boolText (b : Bool) : String := if b then "true" else "false"

end RowReplay
