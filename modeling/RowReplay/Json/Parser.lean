import RowReplay.Json.Basic
import RowReplay.Number.Decimal

/-!
Reading JSON text. A number written with a point or an exponent, beyond 64 bits, or as a negative
zero is floating; every other number is whole.
-/
namespace RowReplay.Json

def isBlank (c : Char) : Bool := c = ' ' || c = '\n' || c = '\r' || c = '\t'

def skipBlanks (cs : List Char) : List Char := cs.dropWhile isBlank

/-- The value of a hexadecimal digit. -/
def hexDigit? (c : Char) : Option Nat :=
  if '0' ≤ c ∧ c ≤ '9' then some (c.toNat - '0'.toNat)
  else if 'a' ≤ c ∧ c ≤ 'f' then some (c.toNat - 'a'.toNat + 10)
  else if 'A' ≤ c ∧ c ≤ 'F' then some (c.toNat - 'A'.toNat + 10)
  else none

/-- Four hexadecimal digits. -/
def hexUnit? : List Char → Option (Nat × List Char)
  | a :: b :: c :: d :: rest => do
    let a ← hexDigit? a
    let b ← hexDigit? b
    let c ← hexDigit? c
    let d ← hexDigit? d
    some (((a * 16 + b) * 16 + c) * 16 + d, rest)
  | _ => none

/-- The character of a numbered escape: one unit, or a high and a low surrogate. -/
def numberedEscape? (cs : List Char) : Option (Char × List Char) := do
  let (high, rest) ← hexUnit? cs
  if 0xd800 ≤ high ∧ high < 0xdc00 then
    match rest with
    | '\\' :: 'u' :: more =>
      let (low, rest) ← hexUnit? more
      if 0xdc00 ≤ low ∧ low < 0xe000 then
        some (Char.ofNat (0x10000 + (high - 0xd800) * 0x400 + (low - 0xdc00)), rest)
      else none
    | _ => none
  else if 0xdc00 ≤ high ∧ high < 0xe000 then none
  else some (Char.ofNat high, rest)

/-- The characters of a string up to its closing quote, and what follows. -/
def stringBody? (fuel : Nat) (cs : List Char) (seen : List Char) : Option (String × List Char) :=
  match fuel, cs with
  | 0, _ => none
  | _, [] => none
  | _, '"' :: rest => some (String.ofList seen.reverse, rest)
  | fuel + 1, '\\' :: mark :: rest =>
    match mark with
    | '"' => stringBody? fuel rest ('"' :: seen)
    | '\\' => stringBody? fuel rest ('\\' :: seen)
    | '/' => stringBody? fuel rest ('/' :: seen)
    | 'b' => stringBody? fuel rest ('\x08' :: seen)
    | 'f' => stringBody? fuel rest ('\x0c' :: seen)
    | 'n' => stringBody? fuel rest ('\n' :: seen)
    | 'r' => stringBody? fuel rest ('\r' :: seen)
    | 't' => stringBody? fuel rest ('\t' :: seen)
    | 'u' =>
      match numberedEscape? rest with
      | some (c, rest) => stringBody? fuel rest (c :: seen)
      | none => none
    | _ => none
  | fuel + 1, c :: rest => if c.toNat < 0x20 then none else stringBody? fuel rest (c :: seen)

/-- The whole part of a number: a zero, or digits that do not begin with one. -/
def wholePart? (cs : List Char) : Option (List Char × List Char) :=
  match spanDigits cs with
  | ([], _) => none
  | ('0' :: _ :: _, _) => none
  | found => some found

/-- The characters of an exponent. -/
def exponentChars? : List Char → Option (List Char × List Char)
  | mark :: rest =>
    if mark = 'e' ∨ mark = 'E' then
      let (sign, rest) := match rest with
        | '+' :: more => ([], more)
        | '-' :: more => (['-'], more)
        | _ => ([], rest)
      match spanDigits rest with
      | ([], _) => none
      | (digits, rest) => some ('e' :: sign ++ digits, rest)
    else some ([], mark :: rest)
  | [] => some ([], [])

/-- A number without its sign. -/
def number? (negative : Bool) (cs : List Char) : Option (Json × List Char) := do
  let (whole, rest) ← wholePart? cs
  let (fraction, rest) ← match rest with
    | '.' :: more =>
      match spanDigits more with
      | ([], _) => none
      | (digits, rest) => some ('.' :: digits, rest)
    | _ => some ([], rest)
  let (exponent, rest) ← exponentChars? rest
  let n := digitsValue whole
  let isWhole := fraction.isEmpty && exponent.isEmpty &&
    (if negative then 0 < n && n ≤ Nat.pow 2 63 else n < UInt64.size)
  if isWhole then some (.int (if negative then -(n : Int) else n), rest)
  else
    let x ← Binary64.ofNumeral? negative (whole ++ fraction ++ exponent)
    if x.isFinite then some (.float x, rest) else none

/-- The rest of a text after a word that it begins with. -/
def afterWord? (word : String) (cs : List Char) : Option (List Char) :=
  if word.toList.isPrefixOf cs then some (cs.drop word.length) else none

mutual

/-- A value and what follows it. -/
def value? : Nat → List Char → Option (Json × List Char)
  | 0, _ => none
  | fuel + 1, cs =>
    match skipBlanks cs with
    | 'n' :: _ => (afterWord? "null" (skipBlanks cs)).map (.null, ·)
    | 't' :: _ => (afterWord? "true" (skipBlanks cs)).map (.bool true, ·)
    | 'f' :: _ => (afterWord? "false" (skipBlanks cs)).map (.bool false, ·)
    | '"' :: rest => (stringBody? fuel rest []).map fun (s, rest) => (.str s, rest)
    | '[' :: rest =>
      match skipBlanks rest with
      | ']' :: rest => some (.arr [], rest)
      | _ => (items? fuel rest []).map fun (items, rest) => (.arr items, rest)
    | '\x7b' :: rest =>
      match skipBlanks rest with
      | '\x7d' :: rest => some (.obj [], rest)
      | _ => (members? fuel rest []).map fun (members, rest) => (.obj members, rest)
    | '-' :: rest => number? true rest
    | rest => number? false rest

/-- Items up to the closing bracket. -/
def items? : Nat → List Char → List Json → Option (List Json × List Char)
  | 0, _, _ => none
  | fuel + 1, cs, seen =>
    match value? fuel cs with
    | none => none
    | some (item, rest) =>
      match skipBlanks rest with
      | ',' :: rest => items? fuel rest (item :: seen)
      | ']' :: rest => some ((item :: seen).reverse, rest)
      | _ => none

/-- Members up to the closing brace. -/
def members? : Nat → List Char → List (String × Json) → Option (List (String × Json) × List Char)
  | 0, _, _ => none
  | fuel + 1, cs, seen =>
    match skipBlanks cs with
    | '"' :: rest =>
      match stringBody? fuel rest [] with
      | none => none
      | some (name, rest) =>
        match skipBlanks rest with
        | ':' :: rest =>
          match value? fuel rest with
          | none => none
          | some (value, rest) =>
            match skipBlanks rest with
            | ',' :: rest => members? fuel rest ((name, value) :: seen)
            | '\x7d' :: rest => some (((name, value) :: seen).reverse, rest)
            | _ => none
        | _ => none
    | _ => none

end

/-- The value that a text writes, blanks around it allowed. Each call consumes a character or is the
first of a list, so twice the length bounds their nesting. -/
def parse? (s : String) : Option Json :=
  let cs := s.toList
  match value? (2 * cs.length + 2) cs with
  | some (value, rest) => if (skipBlanks rest).isEmpty then some value else none
  | none => none

end RowReplay.Json
