/-!
A place in a YAML text: its line, its column, and the text from there on. Also what the characters
there are, and the way to the next place where something is written.
-/
namespace RowReplay.Yaml

/-- The end of a line. Other line ends are made into line feeds when a text is read. -/
def isBreak (c : Char) : Bool := c = '\n' || c = '\u2028' || c = '\u2029'

def isBlank (c : Char) : Bool := c = ' ' || c = '\t'

/-- A blank, the end of a line, or the end of the text comes next. -/
def endsWord : List Char → Bool
  | [] => true
  | c :: _ => isBlank c || isBreak c

/-- The end of the line or of the text comes next. -/
def endsLine : List Char → Bool
  | [] => true
  | c :: _ => isBreak c

/-- The marks that separate documents, if they stand at the start of a line. -/
def isMarker : List Char → Bool
  | '-' :: '-' :: '-' :: rest => endsWord rest
  | '.' :: '.' :: '.' :: rest => endsWord rest
  | _ => false

/-- The parts of collections written between brackets. -/
def isFlowMark (c : Char) : Bool := c = ',' || c = '[' || c = ']' || c = '\x7b' || c = '\x7d'

structure Cursor where
  line : Nat
  column : Nat
  rest : List Char
  deriving DecidableEq, Inhabited

namespace Cursor

def start (cs : List Char) : Cursor := ⟨0, 0, cs⟩

/-- Past some characters of the same line. -/
def forward (c : Cursor) (n : Nat) : Cursor := ⟨c.line, c.column + n, c.rest.drop n⟩

/-- No more of the document comes. -/
def atEnd (c : Cursor) : Bool := c.rest.isEmpty || (c.column = 0 && isMarker c.rest)

/-- A hyphen that introduces an item. -/
def atDash (c : Cursor) : Bool :=
  match c.rest with
  | '-' :: rest => endsWord rest
  | _ => false

/-- The place after blanks, comments and ends of lines. Tabs are passed where `tabs` allows them; at
the start of a line only between brackets. -/
def skip (inFlow : Bool) (tabs inComment : Bool) (line column : Nat) : List Char → Cursor
  | [] => ⟨line, column, []⟩
  | c :: rest =>
    if isBreak c then skip inFlow inFlow false (line + 1) 0 rest
    else if inComment then skip inFlow tabs true line (column + 1) rest
    else if c = ' ' || (c = '\t' && tabs) then skip inFlow tabs false line (column + 1) rest
    else if c = '#' then skip inFlow tabs true line (column + 1) rest
    else ⟨line, column, c :: rest⟩

/-- The next place outside brackets. -/
def next (c : Cursor) (tabs : Bool) : Cursor := skip false tabs false c.line c.column c.rest

/-- The next place between brackets. -/
def nextInFlow (c : Cursor) : Cursor := skip true true false c.line c.column c.rest

/-- The place after blanks of the same line. -/
def afterBlanks (c : Cursor) : Cursor := c.forward (c.rest.takeWhile isBlank).length

end Cursor

end RowReplay.Yaml
