import RowReplay.Log.Line
import RowReplay.Text.Lowercase

/-! The words for levels of logging, in any case. -/
namespace RowReplay

/-- The text is one of the words, in any case. -/
def isLevelWord (s : String) : Bool := (LogLevel.all.map LogLevel.word).contains (Text.lowercase s)

/-- The level of a word, in any case. -/
def LogLevel.ofText? (s : String) : Option LogLevel :=
  match Text.lowercase s with
  | "trace" => some .trace
  | "debug" => some .debug
  | "info" => some .info
  | "warn" => some .warn
  | "error" => some .error
  | _ => none

end RowReplay
