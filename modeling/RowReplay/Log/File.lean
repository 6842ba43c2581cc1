import RowReplay.Config.Layers
import RowReplay.Log.Level
import RowReplay.Time.Timestamp

/-!
Starting the log: the level must be one of the words, and a log file is opened where a directory for
it is set. There is one log for the whole program, so a second start fails after that.
-/
namespace RowReplay

/-- Why the log is not started. -/
inductive LogFailure
  | unknownLevel (word : String)
  | alreadyStarted
  /-- The directory cannot be made. -/
  | unwritable
  deriving DecidableEq

def LogFailure.message : LogFailure → String
  | .unknownLevel word => "Invalid log level: " ++ word
  | .alreadyStarted => "a global default trace dispatcher has already been set"
  | .unwritable => "initializing rolling file appender failed"

/-- The date of a point in time, perhaps with its hour. -/
def Timestamp.dateText (t : Timestamp) (withHour : Bool) : String :=
  let (year, month, day) := civilDate (t.seconds / 86400)
  let hour := (t.seconds % 86400).toNat / 3600
  yearText year ++ "-" ++ Text.zeroPadded 2 month ++ "-" ++ Text.zeroPadded 2 day ++
    (if withHour then "-" ++ Text.zeroPadded 2 hour else "")

/-- The name of the log file that is begun at a time. -/
def Rotation.fileName (now : Timestamp) : Rotation → String
  | .daily => "rowcache.log." ++ now.dateText false
  | .hourly => "rowcache.log." ++ now.dateText true
  | .never => "rowcache.log"

/-- Some part of a path is a file, so it cannot be a directory. -/
def Files.blocks (files : Files) (path : String) : Bool :=
  files.any fun (name, _) => (pathParts name).isPrefixOf (pathParts path)

/-- The names in a directory, each once and sorted. -/
def Files.listDirectory (files : Files) (path : String) : List String :=
  let parts := pathParts path
  let names := files.filterMap fun (name, _) =>
    if parts.isPrefixOf (pathParts name) then ((pathParts name).drop parts.length).head? else none
  names.eraseDups.mergeSort (· ≤ ·)

namespace LogSettings

/-- The log file to open, if there is a directory for it, or why the log is not started. -/
def file? (s : LogSettings) (files : Files) (now : Timestamp) : Except LogFailure (Option String) :=
  match LogLevel.ofText? s.level with
  | none => .error (.unknownLevel s.level)
  | some _ =>
    match s.directory with
    | none => .ok none
    | some directory =>
      if files.blocks directory then .error .unwritable
      else .ok (some (directory ++ "/" ++ s.rotation.fileName now))

end LogSettings

end RowReplay
