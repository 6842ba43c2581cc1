import RowReplay.Config.Basic
import RowReplay.Yaml.Printer

/-! The settings as a YAML document: three sections, each with its fields in lines of their own. -/
namespace RowReplay.Config

/-- A whole number on a line. -/
def natLine (n : Nat) : List Char := Nat.toDigits 10 n ++ ['\n']

def wordLine (s : String) : List Char := s.toList ++ ['\n']

def boolLine (b : Bool) : List Char := wordLine (if b then "true" else "false")

/-- The word for a value that is not set. -/
def nullLine : List Char := wordLine "null"

/-- The indentation of fields. -/
def fieldIndent : Nat := 2

/-- A field: its name and, from there to the end of its last line, its value. -/
def fieldText (name : String) (value : List Char) : List Char :=
  List.replicate fieldIndent ' ' ++ name.toList ++ ':' :: ' ' :: value

/-- A section: its name on a line and its fields below. -/
def sectionText (name : String) (fields : List (String × List Char)) : List Char :=
  name.toList ++ ':' :: '\n' :: fields.flatMap fun (field, value) => fieldText field value

/-- The YAML document of the settings. -/
def yaml (c : Config) : String :=
  String.ofList (
    sectionText "cache" [
      ("ttl_secs", natLine c.cache.ttlSeconds.toNat),
      ("refresh_ahead", wordLine (NumeralLayout.yaml.text c.cache.refreshAhead))] ++
    sectionText "replay" [
      ("ready_timeout_secs", natLine c.replay.readyTimeoutSeconds.toNat),
      ("put_timeout_ms", natLine c.replay.putTimeoutMillis.toNat),
      ("max_put_attempts", (c.replay.maxPutAttempts.map fun n => natLine n.toNat).getD nullLine)] ++
    sectionText "logging" [
      ("level", Yaml.scalarLines fieldIndent c.logging.level),
      ("format", wordLine c.logging.format.word),
      ("log_dir", (c.logging.directory.map (Yaml.scalarLines fieldIndent)).getD nullLine),
      ("enable_console", boolLine c.logging.console),
      ("rotation", wordLine c.logging.rotation.word)])

end RowReplay.Config
