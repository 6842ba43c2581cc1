import RowReplay.Json.Basic
import RowReplay.Number.Decimal
import RowReplay.Text.Quoted

/-! JSON text: compact, without blanks, and indented, with two blanks for each level. -/
namespace RowReplay.Json

/-- One character inside a string. -/
def escapedChar (c : Char) : List Char :=
  if c = '"' then ['\\', '"']
  else if c = '\\' then ['\\', '\\']
  else if c.toNat = 0x08 then ['\\', 'b']
  else if c.toNat = 0x0c then ['\\', 'f']
  else if c = '\n' then ['\\', 'n']
  else if c = '\r' then ['\\', 'r']
  else if c = '\t' then ['\\', 't']
  else if c.toNat < 0x20 then '\\' :: 'u' :: (Text.hexPadded 4 c.toNat).toList
  else [c]

/-- A string between double quotes. -/
def stringText (s : String) : String :=
  String.ofList ('"' :: s.toList.flatMap escapedChar ++ ['"'])

/-- A floating number; what is not finite has no text of its own. -/
def floatText (x : Binary64) : String := NumeralLayout.json.text x

mutual

/-- Compact text. -/
def compact : Json → String
  | .null => "null"
  | .bool b => if b then "true" else "false"
  | .int i => toString i
  | .float x => floatText x
  | .str s => stringText s
  | .arr items => "[" ++ compactItems items ++ "]"
  | .obj members => "\x7b" ++ compactMembers members ++ "\x7d"

def compactItems : List Json → String
  | [] => ""
  | [item] => compact item
  | item :: rest => compact item ++ "," ++ compactItems rest

def compactMembers : List (String × Json) → String
  | [] => ""
  | [(name, value)] => stringText name ++ ":" ++ compact value
  | (name, value) :: rest =>
    stringText name ++ ":" ++ compact value ++ "," ++ compactMembers rest

end

/-- A line break and the blanks of a level. -/
def newline (level : Nat) : String := "\n" ++ String.ofList (List.replicate (2 * level) ' ')

mutual

/-- Indented text, starting at a level. -/
def indented (level : Nat) : Json → String
  | .null => "null"
  | .bool b => if b then "true" else "false"
  | .int i => toString i
  | .float x => floatText x
  | .str s => stringText s
  | .arr items => if items.isEmpty then "[]" else "[" ++ indentedItems level items
  | .obj members =>
    if members.isEmpty then "\x7b\x7d" else "\x7b" ++ indentedMembers level members

/-- The items, each on lines of its own, and the closing bracket. -/
def indentedItems (level : Nat) : List Json → String
  | [] => newline level ++ "]"
  | item :: rest =>
    newline (level + 1) ++ indented (level + 1) item ++ (if rest.isEmpty then "" else ",") ++
      indentedItems level rest

/-- The members, each on lines of its own, and the closing brace. -/
def indentedMembers (level : Nat) : List (String × Json) → String
  | [] => newline level ++ "\x7d"
  | (name, value) :: rest =>
    newline (level + 1) ++ stringText name ++ ": " ++ indented (level + 1) value ++
      (if rest.isEmpty then "" else ",") ++ indentedMembers level rest

end

/-- Indented text. -/
def pretty (j : Json) : String := indented 0 j

end RowReplay.Json
