import RowReplay.Json.Parser
import RowReplay.Yaml.Cursor

/-!
Plain and quoted scalars. They may go on over several lines: a single end of line between words
stands for a blank, and of several the first is dropped.
-/
namespace RowReplay.Yaml

/-- What has been passed since the last word. -/
inductive Gap
  /-- Blanks of one line. -/
  | blanks (seen : List Char)
  /-- Ends of lines: the first, unless it was escaped, and those after it. -/
  | breaks (first : Option Char) (more : List Char)
  deriving DecidableEq

namespace Gap

def none : Gap := .blanks []

def isNone : Gap → Bool
  | .blanks [] => true
  | _ => false

/-- The line has ended. -/
def crossed : Gap → Bool
  | .blanks _ => false
  | .breaks .. => true

/-- Blanks count until the line ends. -/
def addBlank (c : Char) : Gap → Gap
  | .blanks seen => .blanks (seen ++ [c])
  | gap => gap

def addBreak (c : Char) : Gap → Gap
  | .blanks _ => .breaks (some c) []
  | .breaks first more => .breaks first (more ++ [c])

/-- What the gap stands for. -/
def text : Gap → List Char
  | .blanks seen => seen
  | .breaks (some '\n') [] => [' ']
  | .breaks (some '\n') more => more
  | .breaks (some c) more => c :: more
  | .breaks .none more => more

end Gap

/-- A plain scalar does not go on here, gap or not. -/
def endsPlain (inFlow : Bool) (c : Char) (rest : List Char) : Bool :=
  (c = ':' && endsWord rest) || (inFlow && isFlowMark c)

/-- A plain scalar does not go on here after a gap: a comment or marker begins, or the line is not
indented enough. -/
def endsPlainAfter (inFlow : Bool) (least : Nat) (gap : Gap) (column : Nat) (cs : List Char) :
    Bool :=
  !gap.isNone && (cs.head? = some '#' || (gap.crossed && !inFlow && column < least) ||
    (column = 0 && isMarker cs))

/-- A colon between brackets that a mark follows. -/
def isStrayColon (inFlow : Bool) (c : Char) (rest : List Char) : Bool :=
  inFlow && c = ':' && match rest with
    | next :: _ => next = '?' || isFlowMark next
    | [] => false

/-- The text of a plain scalar and the place after it. Lines after the first begin at the column
`least` or later. -/
def plainFrom (inFlow : Bool) (least : Nat) (gap : Gap) (line column : Nat) :
    List Char → Option (List Char × Cursor)
  | [] => some ([], ⟨line, column, []⟩)
  | c :: rest =>
    if isBreak c then plainFrom inFlow least (gap.addBreak c) (line + 1) 0 rest
    else if isBlank c then
      if c = '\t' && gap.crossed && column < least then none
      else plainFrom inFlow least (gap.addBlank c) line (column + 1) rest
    else if endsPlainAfter inFlow least gap column (c :: rest) then
      some ([], ⟨line, column, c :: rest⟩)
    else if isStrayColon inFlow c rest then none
    else if endsPlain inFlow c rest then some ([], ⟨line, column, c :: rest⟩)
    else
      (plainFrom inFlow least .none line (column + 1) rest).map fun (text, cursor) =>
        (gap.text ++ c :: text, cursor)

/-- A marker of documents at the start of a line, which may not stand within quotes. -/
def breaksQuote (gap : Gap) (column : Nat) (cs : List Char) : Bool :=
  gap.crossed && column = 0 && isMarker cs

/-- The text between single quotes from after the first one, and the place after the last. A quote
that is meant is written twice; `quoted` tells that the first of two may have been passed. -/
def singleFrom (quoted : Bool) (gap : Gap) (line column : Nat) :
    List Char → Option (List Char × Cursor)
  | [] => if quoted then some ([], ⟨line, column, []⟩) else none
  | c :: rest =>
    if quoted then
      if c = '\'' then
        (singleFrom false .none line (column + 1) rest).map fun (text, cursor) =>
          ('\'' :: text, cursor)
      else some ([], ⟨line, column, c :: rest⟩)
    else if isBreak c then singleFrom false (gap.addBreak c) (line + 1) 0 rest
    else if isBlank c then singleFrom false (gap.addBlank c) line (column + 1) rest
    else if breaksQuote gap column (c :: rest) then none
    else if c = '\'' then
      (singleFrom true .none line (column + 1) rest).map fun (text, cursor) =>
        (gap.text ++ text, cursor)
    else
      (singleFrom false .none line (column + 1) rest).map fun (text, cursor) =>
        (gap.text ++ c :: text, cursor)

/-- The characters that stand for themselves, or for another one, after a backslash. -/
def simpleEscape? : Char → Option Char
  | '0' => some (Char.ofNat 0)
  | 'a' => some (Char.ofNat 7)
  | 'b' => some (Char.ofNat 8)
  | 't' => some '\t'
  | '\t' => some '\t'
  | 'n' => some '\n'
  | 'v' => some (Char.ofNat 11)
  | 'f' => some (Char.ofNat 12)
  | 'r' => some '\r'
  | 'e' => some (Char.ofNat 27)
  | ' ' => some ' '
  | '"' => some '"'
  | '/' => some '/'
  | '\\' => some '\\'
  | 'N' => some (Char.ofNat 0x85)
  | '_' => some (Char.ofNat 0xa0)
  | 'L' => some (Char.ofNat 0x2028)
  | 'P' => some (Char.ofNat 0x2029)
  | _ => none

/-- How many hexadecimal digits follow a mark. -/
def escapeWidth? : Char → Option Nat
  | 'x' => some 2
  | 'u' => some 4
  | 'U' => some 8
  | _ => none

/-- The character with a number, if there is one. -/
def charOf? (n : Nat) : Option Char := if n.isValidChar then some (Char.ofNat n) else none

/-- Where a reader of double quotes stands. -/
inductive QuoteState
  | text
  /-- After a backslash. -/
  | escape
  /-- Within a number, with this many digits to come. -/
  | digits (left value : Nat)
  deriving DecidableEq

/-- The text between double quotes from after the first one, and the place after the last. -/
def doubleFrom (state : QuoteState) (gap : Gap) (line column : Nat) :
    List Char → Option (List Char × Cursor)
  | [] => none
  | c :: rest =>
    match state with
    | .digits left value =>
      match Json.hexDigit? c with
      | none => none
      | some digit =>
        if left ≤ 1 then
          match charOf? (16 * value + digit) with
          | none => none
          | some meant =>
            (doubleFrom .text .none line (column + 1) rest).map fun (text, cursor) =>
              (meant :: text, cursor)
        else doubleFrom (.digits (left - 1) (16 * value + digit)) .none line (column + 1) rest
    | .escape =>
      if isBreak c then doubleFrom .text (.breaks none []) (line + 1) 0 rest
      else
        match escapeWidth? c, simpleEscape? c with
        | some width, _ => doubleFrom (.digits width 0) .none line (column + 1) rest
        | none, some meant =>
          (doubleFrom .text .none line (column + 1) rest).map fun (text, cursor) =>
            (meant :: text, cursor)
        | none, none => none
    | .text =>
      if isBreak c then doubleFrom .text (gap.addBreak c) (line + 1) 0 rest
      else if isBlank c then doubleFrom .text (gap.addBlank c) line (column + 1) rest
      else if breaksQuote gap column (c :: rest) then none
      else if c = '"' then some (gap.text, ⟨line, column + 1, rest⟩)
      else if c = '\\' then
        (doubleFrom .escape .none line (column + 1) rest).map fun (text, cursor) =>
          (gap.text ++ text, cursor)
      else
        (doubleFrom .text .none line (column + 1) rest).map fun (text, cursor) =>
          (gap.text ++ c :: text, cursor)

end RowReplay.Yaml
