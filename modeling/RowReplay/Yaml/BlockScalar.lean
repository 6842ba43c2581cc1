import RowReplay.Yaml.Cursor

/-!
Block scalars: lines of text, indented alike. A literal one keeps its line ends; a folded one joins
lines that do not begin with a blank. What becomes of the last line ends is said at the beginning.
-/
namespace RowReplay.Yaml

/-- What becomes of the line ends after the last line. -/
inductive Chomping
  | strip
  /-- The first is kept. -/
  | clip
  | keep
  deriving DecidableEq, Inhabited

structure BlockHeader where
  chomping : Chomping
  /-- How much more the lines are indented than what they belong to. -/
  increment : Option Nat
  deriving DecidableEq

/-- Reads the marks after the first character, and what follows them. -/
def BlockHeader.ofText? : List Char → Option (BlockHeader × List Char)
  | '0' :: _ => none
  | '+' :: '0' :: _ => none
  | '-' :: '0' :: _ => none
  | cs =>
    let sign? : Char → Option Chomping
      | '+' => some .keep
      | '-' => some .strip
      | _ => none
    let digit? (c : Char) : Option Nat := if c.isDigit then some (c.toNat - '0'.toNat) else none
    match cs with
    | a :: rest =>
      match sign? a, digit? a, rest with
      | some chomping, _, b :: more =>
        match digit? b with
        | some n => some (⟨chomping, some n⟩, more)
        | none => some (⟨chomping, none⟩, rest)
      | some chomping, _, [] => some (⟨chomping, none⟩, [])
      | none, some n, b :: more =>
        match sign? b with
        | some chomping => some (⟨chomping, some n⟩, more)
        | none => some (⟨.clip, some n⟩, rest)
      | none, some n, [] => some (⟨.clip, some n⟩, [])
      | none, none, _ => some (⟨.clip, none⟩, cs)
    | [] => some (⟨.clip, none⟩, [])

/-- What follows the marks up to the end of the line: blanks and perhaps a comment. -/
def afterHeader? (cs : List Char) : Option (List Char) :=
  let rest := cs.dropWhile isBlank
  let rest := if rest.head? = some '#' then rest.dropWhile (!isBreak ·) else rest
  match rest with
  | [] => some []
  | c :: more => if isBreak c then some more else none

/-- The indentation of the first line that holds text, or of a longer line of blanks before it. A
tab in its place has none. -/
def detectIndent? (most spaces : Nat) : List Char → Option Nat
  | [] => some (max most spaces)
  | c :: rest =>
    if c = ' ' then detectIndent? most (spaces + 1) rest
    else if isBreak c then detectIndent? (max most spaces) 0 rest
    else if c = '\t' then none
    else some (max most spaces)

/-- A line of a block scalar. -/
structure BlockLine where
  /-- None for a line that is not indented enough to hold text. -/
  content : Option (List Char)
  lineBreak : List Char
  deriving DecidableEq

mutual

/-- The lines from the start of a line, some spaces of which have been passed, and the place after
them. -/
def blockLines (indent spaces line : Nat) : List Char → Option (List BlockLine × Cursor)
  | [] => some ([], ⟨line, spaces, []⟩)
  | c :: rest =>
    if spaces < indent && c = ' ' then blockLines indent (spaces + 1) line rest
    else if spaces < indent && c = '\t' then none
    else if isBreak c then
      (blockLines indent 0 (line + 1) rest).map fun (lines, cursor) =>
        (⟨none, [c]⟩ :: lines, cursor)
    else if spaces = indent then
      (blockContent indent line spaces rest).map fun (content, lineBreak, lines, cursor) =>
        (⟨some (c :: content), lineBreak⟩ :: lines, cursor)
    else some ([], ⟨line, spaces, c :: rest⟩)

/-- The rest of a line, its end, and the lines after it. -/
def blockContent (indent line column : Nat) :
    List Char → Option (List Char × List Char × List BlockLine × Cursor)
  | [] => some ([], [], [], ⟨line, column + 1, []⟩)
  | c :: rest =>
    if isBreak c then
      (blockLines indent 0 (line + 1) rest).map fun (lines, cursor) => ([], [c], lines, cursor)
    else
      (blockContent indent line (column + 1) rest).map fun (content, lineBreak, lines, cursor) =>
        (c :: content, lineBreak, lines, cursor)

end

/-- What stands between two lines, the first of which ends with `lead`, with the ends of the empty
lines between them. Folding drops a line feed between lines that do not begin with a blank. -/
def blockGlue (folds : Bool) (lead empty : List Char) (leadBlank startsBlank : Bool) : List Char :=
  if folds && lead = ['\n'] && !leadBlank && !startsBlank then
    if empty.isEmpty then [' '] else empty
  else lead ++ empty

/-- The text of the lines after one that ends with `lead`. -/
def blockText (folds : Bool) (chomping : Chomping) (lead : List Char) (leadBlank : Bool)
    (empty : List Char) : List BlockLine → List Char
  | [] =>
    match chomping with
    | .strip => []
    | .clip => lead
    | .keep => lead ++ empty
  | ⟨none, lineBreak⟩ :: rest =>
    blockText folds chomping lead leadBlank (empty ++ lineBreak) rest
  | ⟨some content, lineBreak⟩ :: rest =>
    let startsBlank := content.head?.any isBlank
    blockGlue folds lead empty leadBlank startsBlank ++ content ++
      blockText folds chomping lineBreak startsBlank [] rest

/-- The text of a block scalar from after its first character, and the place after it. Its lines
begin at the column `least` or later. -/
def blockScalar (folds : Bool) (least line : Nat) (cs : List Char) :
    Option (List Char × Cursor) := do
  let (header, rest) ← BlockHeader.ofText? cs
  let body ← afterHeader? rest
  let indent ← match header.increment with
    | some n => some (if least = 0 then n else least - 1 + n)
    | none => (detectIndent? 0 0 body).map fun found => max found (max least 1)
  let (lines, cursor) ← blockLines indent 0 (line + 1) body
  some (blockText folds header.chomping [] false [] lines, cursor)

end RowReplay.Yaml
