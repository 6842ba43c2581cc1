import RowReplay.Config.Setting

/-!
Settings from environment variables. A variable's name, after the prefix, is a path whose parts are
separated by two underscores; its value is read as a truth value, a number, a list, a group or
quoted text, and as the text it is otherwise.
-/
namespace RowReplay.Environment

def isSpace (c : Char) : Bool := c = ' ' || c = '\t'

/-- A character of a value that is not quoted. -/
def isBareChar (c : Char) : Bool :=
  c ≠ ',' && c ≠ '\x7b' && c ≠ '\x7d' && c ≠ '[' && c ≠ ']'

def isKeyChar (c : Char) : Bool := c.isAlphanum || c = '_' || c = '-'

/-- Blank in any script. -/
def isWhitespace (c : Char) : Bool :=
  let n := c.toNat
  (9 ≤ n && n ≤ 13) || n = 0x20 || n = 0x85 || n = 0xa0 || n = 0x1680 ||
    (0x2000 ≤ n && n ≤ 0x200a) || n = 0x2028 || n = 0x2029 || n = 0x202f || n = 0x205f || n = 0x3000

def trim (cs : List Char) : List Char :=
  ((cs.dropWhile isWhitespace).reverse.dropWhile isWhitespace).reverse

/-- Text that is not quoted: a number if it is one. A numeral with a point is floating. -/
def valueOfText (cs : List Char) : SettingValue :=
  let float := if cs.contains '.' then Binary64.ofText? cs else none
  match float, natBelow? UInt64.size cs, intOfDigits? cs with
  | some x, _, _ => .float x
  | none, some n, _ => .unsigned n
  | none, none, some i => .signed i
  | none, none, none => .text (String.ofList cs)

/-- The characters of quoted text up to the closing quote, without their escapes, and what follows.
`digits` of a numbered character are to come. -/
def quotedText? : Nat → List Char → Option (List Char × List Char)
  | 0, _ => none
  | _, [] => none
  | fuel + 1, c :: rest =>
    let followedBy (c : Char) (rest : List Char) : Option (List Char × List Char) :=
      (quotedText? fuel rest).map fun (text, rest) => (c :: text, rest)
    let numbered (width : Nat) (rest : List Char) : Option (List Char × List Char) :=
      let digits := rest.take width
      if digits.length < width then none
      else
        match digits.mapM Json.hexDigit? with
        | none => none
        | some digits =>
          let n := digits.foldl (fun n d => 16 * n + d) 0
          if n.isValidChar then followedBy (Char.ofNat n) (rest.drop width) else none
    if c = '"' then some ([], rest)
    else if c = '\\' then
      match rest with
      | '"' :: more => followedBy '"' more
      | '\\' :: more => followedBy '\\' more
      | 'b' :: more => followedBy (Char.ofNat 8) more
      | 'f' :: more => followedBy (Char.ofNat 12) more
      | 'n' :: more => followedBy '\n' more
      | 'r' :: more => followedBy '\r' more
      | 't' :: more => followedBy '\t' more
      | 'u' :: more => numbered 4 more
      | 'U' :: more => numbered 8 more
      | _ => none
    else if c = '\t' || (0x20 ≤ c.toNat && c.toNat ≠ 0x7f) then followedBy c rest
    else none

/-- The name of a member, and what follows its equals sign. -/
def key? (fuel : Nat) (cs : List Char) : Option (String × List Char) :=
  let cs := cs.dropWhile isSpace
  let found := match cs with
    | '"' :: rest => quotedText? fuel rest
    | _ =>
      let key := cs.takeWhile isKeyChar
      if key.isEmpty then none else some (key, cs.dropWhile isKeyChar)
  found.bind fun (key, rest) =>
    match rest.dropWhile isSpace with
    | '=' :: rest => some (String.ofList key, rest)
    | _ => none

mutual

/-- A value and what follows it. -/
def value? : Nat → List Char → Option (Setting × List Char)
  | 0, _ => none
  | fuel + 1, cs =>
    let cs := cs.dropWhile isSpace
    let found : Option (Setting × List Char) :=
      if "true".toList.isPrefixOf cs then some (.value .environment (.bool true), cs.drop 4)
      else if "false".toList.isPrefixOf cs then some (.value .environment (.bool false), cs.drop 5)
      else
        match cs with
        | '\x7b' :: rest =>
          (members? fuel [] rest).map fun (members, rest) => (.group .environment members, rest)
        | '[' :: rest =>
          (items? fuel rest).map fun (items, rest) => (.list .environment items, rest)
        | '"' :: rest =>
          (quotedText? fuel rest).map fun (text, rest) =>
            (.value .environment (.text (String.ofList text)), rest)
        | _ =>
          let text := cs.takeWhile isBareChar
          some (.value .environment (valueOfText (trim text)), cs.dropWhile isBareChar)
    found.map fun (s, rest) => (s, rest.dropWhile isSpace)

/-- Items up to the closing bracket; a comma may stand before it. -/
def items? : Nat → List Char → Option (List Setting × List Char)
  | 0, _ => none
  | fuel + 1, cs =>
    match cs with
    | ']' :: rest => some ([], rest)
    | _ =>
      match value? fuel cs with
      | none => none
      | some (item, ',' :: rest) =>
        (items? fuel rest).map fun (items, rest) => (item :: items, rest)
      | some (item, ']' :: rest) => some ([item], rest)
      | some _ => none

/-- Members up to the closing brace; of those with one name the last counts. -/
def members? : Nat → List (String × Setting) → List Char →
    Option (List (String × Setting) × List Char)
  | 0, _, _ => none
  | fuel + 1, seen, cs =>
    match cs with
    | '\x7d' :: rest => some (seen, rest)
    | _ =>
      match key? fuel cs with
      | none => none
      | some (key, rest) =>
        match value? fuel rest with
        | none => none
        | some (value, ',' :: rest) => members? fuel (Setting.setMember key value seen) rest
        | some (value, '\x7d' :: rest) => some (Setting.setMember key value seen, rest)
        | some _ => none

end

/-- The setting of a variable's value. -/
def settingOfText (s : String) : Setting :=
  let cs := s.toList
  match value? (2 * cs.length + 2) cs with
  | some (setting, []) => setting
  | _ => .value .environment (.text s)

/-- What the names of variables begin with, in any case. -/
def namePrefix : String := "rowcache_"

/-- Two underscores become a point. -/
def separateParts : List Char → List Char
  | '_' :: '_' :: rest => '.' :: separateParts rest
  | c :: rest => c :: separateParts rest
  | [] => []

/-- The path that a variable names: no part of it is empty. -/
def path? (name : String) : Option (List String) :=
  let lower := name.toList.map Char.toLower
  if namePrefix.toList.isPrefixOf lower then
    let parts := ((separateParts (lower.drop namePrefix.length)).splitOn '.').map String.ofList
    if parts.any (·.isEmpty) then none else some parts
  else none

/-- A setting at a path of groups. -/
def nested (s : Setting) : List String → Setting
  | [] => s
  | part :: rest => .group .environment [(part, nested s rest)]

/-- The settings of all variables, which are visited in the order of their names. -/
def settings (environment : List (String × String)) : Setting :=
  let sorted := environment.mergeSort fun a b => a.1 ≤ b.1
  sorted.foldl (fun settings (name, value) =>
    match path? name with
    | some path => settings.overlay (nested (settingOfText value) path)
    | none => settings) (.group .environment [])

end RowReplay.Environment
