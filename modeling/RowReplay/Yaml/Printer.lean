import RowReplay.Text.Quoted
import RowReplay.Yaml.Cursor
import RowReplay.Yaml.Plain

/-!
Writing text as a YAML scalar so that it reads back as the same text. It is plain where that is
safe, else in single quotes; several lines make a literal block; what neither can hold is in double
quotes.
-/
namespace RowReplay.Yaml

/-- Stands for itself in any style. -/
def isPrintable (c : Char) : Bool :=
  let n := c.toNat
  n = 0x0a || (0x20 ≤ n && n ≤ 0x7e) || (0xa0 ≤ n && n ≤ 0xfffd && n ≠ 0xfeff) || 0x10000 ≤ n

/-- Some place in the text where one character follows another. -/
def hasPair (p q : Char → Bool) : List Char → Bool
  | a :: b :: rest => (p a && q b) || hasPair p q (b :: rest)
  | _ => false

def isSpace (c : Char) : Bool := c = ' '

/-- A first character that means something else. -/
def startsWithMark : List Char → Bool
  | [] => false
  | c :: rest =>
    "#,[]\x7b\x7d&*!|>'\"%@`".toList.contains c ||
      ((c = '?' || c = ':' || c = '-') && endsWord rest)

/-- A colon before a blank or the end, or a hash sign after a blank. -/
def hasMark (afterBlank : Bool) : List Char → Bool
  | [] => false
  | c :: rest =>
    (c = ':' && endsWord rest) || (c = '#' && afterBlank) || hasMark (isBlank c || isBreak c) rest

def startsLikeMarker : List Char → Bool
  | '-' :: '-' :: '-' :: _ => true
  | '.' :: '.' :: '.' :: _ => true
  | _ => false

def isPlainSafe (cs : List Char) : Bool :=
  !startsLikeMarker cs && !startsWithMark cs && !hasMark false cs &&
    cs.head?.all (!isSpace ·) && cs.getLast?.all (!isSpace ·) &&
    cs.all fun c => isPrintable c && !isBreak c

def isSingleQuotedSafe (cs : List Char) : Bool :=
  cs.all isPrintable && !hasPair isSpace isBreak cs && !hasPair isBreak isSpace cs

def isLiteralSafe (cs : List Char) : Bool :=
  cs.all isPrintable && !hasPair isSpace isBreak cs && cs.getLast?.all (!isSpace ·)

/-- Words that some readers take for truth values. -/
def oldTruthWords : List String :=
  ["y", "Y", "yes", "Yes", "YES", "n", "N", "no", "No", "NO", "true", "True", "TRUE", "false",
    "False", "FALSE", "on", "On", "ON", "off", "Off", "OFF"]

/-- Would not read as text. -/
def isAmbiguous (s : String) : Bool :=
  oldTruthWords.contains s || isZeroLed s.toList || PlainValue.ofText s ≠ .text

/-- The text between single quotes, with the last one. A line after a break is indented. -/
def singleQuotedRest (indent : Nat) (atStart : Bool) : List Char → List Char
  | [] => if atStart then List.replicate indent ' ' ++ ['\''] else ['\'']
  | c :: rest =>
    if isBreak c then c :: singleQuotedRest indent true rest
    else
      (if atStart then List.replicate indent ' ' else []) ++
        (if c = '\'' then ['\'', '\''] else [c]) ++ singleQuotedRest indent false rest

def singleQuoted (indent : Nat) (cs : List Char) : List Char :=
  '\'' :: singleQuotedRest indent false cs

/-- A character that is written with a backslash and one more. -/
def escapeLetter? (c : Char) : Option Char :=
  match c.toNat with
  | 0x00 => some '0'
  | 0x07 => some 'a'
  | 0x08 => some 'b'
  | 0x09 => some 't'
  | 0x0a => some 'n'
  | 0x0b => some 'v'
  | 0x0c => some 'f'
  | 0x0d => some 'r'
  | 0x1b => some 'e'
  | 0x22 => some '"'
  | 0x5c => some '\\'
  | 0x85 => some 'N'
  | 0xa0 => some '_'
  | 0x2028 => some 'L'
  | 0x2029 => some 'P'
  | _ => none

/-- Upper-case hexadecimal digits, filled up to the width. -/
def hexUpper (width n : Nat) : List Char := (Text.hexPadded width n).toList.map Char.toUpper

/-- One character between double quotes. -/
def doubleQuotedChar (c : Char) : List Char :=
  if isPrintable c && !isBreak c && c ≠ '"' && c ≠ '\\' then [c]
  else
    match escapeLetter? c with
    | some letter => ['\\', letter]
    | none =>
      if c.toNat ≤ 0xff then '\\' :: 'x' :: hexUpper 2 c.toNat
      else if c.toNat ≤ 0xffff then '\\' :: 'u' :: hexUpper 4 c.toNat
      else '\\' :: 'U' :: hexUpper 8 c.toNat

def doubleQuoted (cs : List Char) : List Char := '"' :: cs.flatMap doubleQuotedChar ++ ['"']

/-- The marks of a literal block: its indentation if the text does not show it, and what becomes of
the last line ends. -/
def literalMarks (indentation : Nat) (cs : List Char) : List Char :=
  let startsBlank := cs.head?.any fun c => isSpace c || isBreak c
  let shown := if startsBlank then Nat.toDigits 10 indentation else []
  let chomping := match cs.reverse with
    | [] => ['-']
    | [c] => if isBreak c then ['+'] else ['-']
    | c :: d :: _ => if !isBreak c then ['-'] else if isBreak d then ['+'] else []
  '|' :: shown ++ chomping

/-- Lines with an indentation, and the end of the last one. -/
def indentedLines (indent : Nat) (atStart : Bool) : List Char → List Char
  | [] => if atStart then [] else ['\n']
  | c :: rest =>
    if isBreak c then c :: indentedLines indent true rest
    else if atStart then List.replicate indent ' ' ++ c :: indentedLines indent false rest
    else c :: indentedLines indent false rest

/-- How much more the lines of a scalar are indented than its key. -/
def scalarIndent : Nat := 2

/-- The text as a scalar with the end of its last line. It belongs to a key with this indentation.
-/
def scalarLines (indent : Nat) (s : String) : List Char :=
  let cs := s.toList
  let inner := indent + scalarIndent
  let quoted := if isSingleQuotedSafe cs then singleQuoted inner cs else doubleQuoted cs
  if cs.contains '\n' then
    if isLiteralSafe cs then literalMarks scalarIndent cs ++ '\n' :: indentedLines inner true cs
    else doubleQuoted cs ++ ['\n']
  else if isAmbiguous s then quoted ++ ['\n']
  else if isPlainSafe cs then cs ++ ['\n']
  else quoted ++ ['\n']

end RowReplay.Yaml
