import RowReplay.Yaml.BlockScalar
import RowReplay.Yaml.LineScalar
import RowReplay.Yaml.Node

/-!
Reading a YAML document. A node is read from a place where something is written; `least` is the
column at which its lines must begin, and `keys` tells whether a collection written in lines of its
own may begin there. Collections between brackets may be laid out freely.
-/
namespace RowReplay.Yaml

/-- The characters of names. -/
def isNameChar (c : Char) : Bool := c.isAlphanum || c = '_' || c = '-'

/-- A name and what follows it. -/
def name? (cs : List Char) : Option (String × Nat) :=
  let name := cs.takeWhile isNameChar
  let rest := cs.dropWhile isNameChar
  let ends := endsWord rest || rest.head?.any fun c => "?:,]\x7d%@`".toList.contains c
  if name.isEmpty || !ends then none else some (String.ofList name, name.length)

/-- What tags of the language itself begin with. -/
def coreTag : String := "tag:yaml.org,2002:"

/-- The tag that is written after an exclamation mark. -/
def tagOf? (written : List Char) : Option String :=
  match written with
  | '<' :: inner => if inner.getLast? = some '>' then some (String.ofList inner.dropLast) else none
  | '!' :: word => if word.contains '!' then none else some (coreTag ++ String.ofList word)
  | word => if word.contains '!' then none else some ("!" ++ String.ofList word)

/-- What is said of a node before it. -/
structure Properties where
  name : Option String
  tag : Option String
  deriving Inhabited

namespace Properties

def none : Properties := ⟨.none, .none⟩

def isNone (p : Properties) : Bool := p.name.isNone && p.tag.isNone

def apply (p : Properties) (node : Node) : Node :=
  let node := match p.tag with
    | some tag => node.withTag tag
    | .none => node
  match p.name with
  | some name => .named name node
  | .none => node

end Properties

/-- A name or a tag, each at most once, and the place after them and the blanks behind. -/
def properties? (inFlow : Bool) : Nat → Properties → Cursor → Option (Properties × Cursor)
  | 0, p, c => some (p, c)
  | fuel + 1, p, c =>
    match c.rest with
    | '&' :: rest =>
      if p.name.isSome then none
      else
        match name? rest with
        | none => none
        | some (name, length) =>
          properties? inFlow fuel { p with name := some name } (c.forward (length + 1)).afterBlanks
    | '!' :: rest =>
      if p.tag.isSome then none
      else
        let written := rest.takeWhile fun c => !(isBlank c || isBreak c || (inFlow && isFlowMark c))
        match tagOf? written with
        | none => none
        | some tag =>
          let after := (c.forward (written.length + 1)).afterBlanks
          properties? inFlow fuel { p with tag := some tag } after
    | _ => some (p, c)

/-- A plain scalar may begin here. -/
def startsPlain (inFlow : Bool) : List Char → Bool
  | [] => false
  | '-' :: rest => !endsWord rest
  | '?' :: rest => !inFlow && !endsWord rest
  | ':' :: rest => !inFlow && !endsWord rest
  | c :: _ => !(isBlank c || isBreak c || ",[]\x7b\x7d#&*!|>'\"%@`".toList.contains c)

/-- A scalar of one of the styles that may stand within a line, or a reference. -/
def lineNode? (inFlow : Bool) (least : Nat) (c : Cursor) : Option (Node × Cursor) :=
  match c.rest with
  | '*' :: rest =>
    (name? rest).map fun (name, length) => (.reference name, c.forward (length + 1))
  | '\'' :: rest =>
    (singleFrom false .none c.line (c.column + 1) rest).map fun (text, after) =>
      (.scalar none .singleQuoted (String.ofList text), after)
  | '"' :: rest =>
    (doubleFrom .text .none c.line (c.column + 1) rest).map fun (text, after) =>
      (.scalar none .doubleQuoted (String.ofList text), after)
  | cs =>
    if startsPlain inFlow cs then
      (plainFrom inFlow least .none c.line c.column cs).map fun (text, after) =>
        (.scalar none .plain (String.ofList text), after)
    else none

/-- A colon that separates a key, on the line of the key, and the place after it. Outside brackets a
blank follows. -/
def afterColon? (inFlow : Bool) (key after : Cursor) : Option Cursor :=
  let c := after.afterBlanks
  match c.rest with
  | ':' :: rest =>
    if c.line = key.line && (inFlow || endsWord rest) then some (c.forward 1) else none
  | _ => none

mutual

/-- A node between brackets. -/
def flowNode? : Nat → Cursor → Option (Node × Cursor)
  | 0, _ => none
  | fuel + 1, c =>
    if c.atEnd then none
    else
      match properties? true 3 .none c with
      | none => none
      | some (p, c) =>
        match c.rest with
        | '[' :: _ =>
          (flowItems? fuel (c.forward 1)).map fun (items, after) =>
            (p.apply (.sequence items), after)
        | '\x7b' :: _ =>
          (flowMembers? fuel (c.forward 1)).map fun (members, after) =>
            (p.apply (.mapping members), after)
        | cs =>
          if !p.isNone && (endsLine cs || cs.head?.any isFlowMark) then some (p.apply .empty, c)
          else (lineNode? true 0 c).map fun (node, after) => (p.apply node, after)

/-- The value after a colon between brackets; it may be left out. -/
def flowValue? : Nat → Cursor → Option (Node × Cursor)
  | 0, _ => none
  | fuel + 1, c =>
    let c := c.nextInFlow
    match c.rest with
    | ',' :: _ => some (.empty, c)
    | ']' :: _ => some (.empty, c)
    | '\x7d' :: _ => some (.empty, c)
    | _ => flowNode? fuel c

/-- Items up to the closing bracket. A key and its value are an item as well. -/
def flowItems? : Nat → Cursor → Option (List Node × Cursor)
  | 0, _ => none
  | fuel + 1, c =>
    let c := c.nextInFlow
    match c.rest with
    | ']' :: _ => some ([], c.forward 1)
    | _ =>
      match flowNode? fuel c with
      | none => none
      | some (node, after) =>
        let item : Option (Node × Cursor) := match afterColon? true c after with
          | some value =>
            (flowValue? fuel value).map fun (value, after) => (.mapping [(node, value)], after)
          | none => some (node, after)
        match item with
        | none => none
        | some (item, after) =>
          let after := after.nextInFlow
          match after.rest with
          | ',' :: _ =>
            (flowItems? fuel (after.forward 1)).map fun (rest, after) => (item :: rest, after)
          | ']' :: _ => some ([item], after.forward 1)
          | _ => none

/-- Members up to the closing brace. -/
def flowMembers? : Nat → Cursor → Option (List (Node × Node) × Cursor)
  | 0, _ => none
  | fuel + 1, c =>
    let c := c.nextInFlow
    match c.rest with
    | '\x7d' :: _ => some ([], c.forward 1)
    | _ =>
      match flowNode? fuel c with
      | none => none
      | some (key, after) =>
        let value : Option (Node × Cursor) := match afterColon? true c after with
          | some value => flowValue? fuel value
          | none => some (.empty, after)
        match value with
        | none => none
        | some (value, after) =>
          let after := after.nextInFlow
          match after.rest with
          | ',' :: _ =>
            (flowMembers? fuel (after.forward 1)).map fun (rest, after) =>
              ((key, value) :: rest, after)
          | '\x7d' :: _ => some ([(key, value)], after.forward 1)
          | _ => none

end

/-- A node that may stand within a line of a block: a scalar, a reference, or a collection between
brackets. -/
def inlineNode? (fuel least : Nat) (c : Cursor) : Option (Node × Cursor) :=
  match c.rest with
  | '[' :: _ => flowNode? fuel c
  | '\x7b' :: _ => flowNode? fuel c
  | '|' :: rest =>
    (blockScalar false least c.line rest).map fun (text, after) =>
      (.scalar none .literal (String.ofList text), after)
  | '>' :: rest =>
    (blockScalar true least c.line rest).map fun (text, after) =>
      (.scalar none .folded (String.ofList text), after)
  | _ => lineNode? false least c

/-- A key with its properties, and the place after its colon. -/
def implicitKey? (fuel least : Nat) (c : Cursor) : Option (Node × Cursor) :=
  match properties? false 3 .none c with
  | none => none
  | some (p, inner) =>
    match inlineNode? fuel least inner with
    | none => none
    | some (key, after) => (afterColon? false c after).map fun after => (p.apply key, after)

/-- A question mark that introduces a key. -/
def atQuestion (c : Cursor) : Bool :=
  match c.rest with
  | '?' :: rest => endsWord rest
  | _ => false

/-- A colon that introduces the value of such a key. -/
def atColon (c : Cursor) : Bool :=
  match c.rest with
  | ':' :: rest => endsWord rest
  | _ => false

mutual

/-- A node of a block. -/
def blockNode? : Nat → Nat → Bool → Cursor → Option (Node × Cursor)
  | 0, _, _, _ => none
  | fuel + 1, least, keys, c =>
    if c.atDash then
      if keys then
        (sequence? fuel c.column false c).map fun (items, after) => (.sequence items, after)
      else none
    else if atQuestion c then
      if keys then
        (members? fuel c.column c).map fun (members, after) => (.mapping members, after)
      else none
    else
      match properties? false 3 .none c with
      | none => none
      | some (p, inner) =>
        if !p.isNone && (endsLine inner.rest || inner.rest.head? = some '#') then
          let next := inner.next true
          if next.atEnd || next.column < least then some (p.apply .empty, inner)
          else
            (blockNode? fuel least true next).map fun (node, after) => (p.apply node, after)
        else
          match inlineNode? fuel least inner with
          | none => none
          | some (node, after) =>
            match afterColon? false c after with
            | some value =>
              if keys then
                (membersAfter? fuel c.column (p.apply node) false value).map fun (members, after) =>
                  (.mapping members, after)
              else none
            | none => some (p.apply node, after)

/-- The items of a sequence whose hyphens stand in one column. Without an indentation of its own it
ends where its mapping goes on. -/
def sequence? : Nat → Nat → Bool → Cursor → Option (List Node × Cursor)
  | 0, _, _, _ => none
  | fuel + 1, column, shared, c =>
    let next := (c.forward 1).next false
    let item :=
      if next.atEnd || (next.line ≠ c.line && next.column ≤ column) then
        some (.empty, c.forward 1)
      else blockNode? fuel (column + 1) true next
    match item with
    | none => none
    | some (item, after) =>
      let next := after.next true
      if next.atEnd || next.column < column then some ([item], next)
      else if next.column = column && next.atDash then
        (sequence? fuel column shared next).map fun (rest, after) => (item :: rest, after)
      else if next.column = column && shared then some ([item], next)
      else none

/-- The members of a mapping from a key in its column on. -/
def members? : Nat → Nat → Cursor → Option (List (Node × Node) × Cursor)
  | 0, _, _ => none
  | fuel + 1, column, c =>
    if atQuestion c then
      match value? fuel column true (c.forward 1) with
      | none => none
      | some (key, after) =>
        let next := after.next true
        if !next.atEnd && next.column = column && atColon next then
          membersAfter? fuel column key true (next.forward 1)
        else
          (rest? fuel column next).map fun (rest, after) => ((key, .empty) :: rest, after)
    else
      match implicitKey? fuel (column + 1) c with
      | none => none
      | some (key, after) => membersAfter? fuel column key false after

/-- The members from the value of a key on. -/
def membersAfter? : Nat → Nat → Node → Bool → Cursor → Option (List (Node × Node) × Cursor)
  | 0, _, _, _, _ => none
  | fuel + 1, column, key, keys, c =>
    match value? fuel column keys c with
    | none => none
    | some (value, after) =>
      (rest? fuel column (after.next true)).map fun (rest, after) => ((key, value) :: rest, after)

/-- The members from the next place on, if there are more. -/
def rest? : Nat → Nat → Cursor → Option (List (Node × Node) × Cursor)
  | 0, _, _ => none
  | fuel + 1, column, next =>
    if next.atEnd || next.column < column then some ([], next)
    else if next.column = column then members? fuel column next
    else none

/-- A value after its colon: on the same line or, indented more, on those below. A sequence may
share the column of its mapping. -/
def value? : Nat → Nat → Bool → Cursor → Option (Node × Cursor)
  | 0, _, _, _ => none
  | fuel + 1, column, keys, c =>
    let next := c.next !keys
    if next.rest.isEmpty then some (.empty, c)
    else if next.line = c.line then blockNode? fuel (column + 1) keys next
    else if next.atEnd || next.column < column then some (.empty, c)
    else if next.column = column then
      if next.atDash then
        (sequence? fuel column true next).map fun (items, after) => (.sequence items, after)
      else some (.empty, c)
    else blockNode? fuel (column + 1) true next

end

/-- A document: its node and where that begins, or nothing. -/
structure Document where
  root : Option Node
  line : Nat
  column : Nat
  deriving Inhabited

/-- The characters that a text may hold. -/
def isAllowed (c : Char) : Bool :=
  let n := c.toNat
  n = 0x09 || n = 0x0a || n = 0x0d || (0x20 ≤ n && n ≤ 0x7e) || n = 0x85 ||
    (0xa0 ≤ n && n ≤ 0xfffd && n ≠ 0xfeff) || 0x10000 ≤ n

/-- Ends of lines other than the separators of lines and paragraphs become line feeds. -/
def normalizeBreaks : List Char → List Char
  | '\r' :: '\n' :: rest => '\n' :: normalizeBreaks rest
  | '\r' :: rest => '\n' :: normalizeBreaks rest
  | c :: rest => (if c.toNat = 0x85 then '\n' else c) :: normalizeBreaks rest
  | [] => []

/-- Passes directives, so many at most, and tells whether there were any. Only the version and the
tag directive are known. -/
def directives? : Nat → Bool → Cursor → Option (Bool × Cursor)
  | 0, _, _ => none
  | fuel + 1, seen, c =>
    if c.column = 0 && c.rest.head? = some '%' then
      let line := c.rest.takeWhile (!isBreak ·)
      let words := (String.ofList line).splitOn " " |>.filter (· ≠ "")
      let known : Bool := match words with
        | "%YAML" :: version :: rest =>
          (version = "1.1" || version = "1.2") && rest.head?.all (·.startsWith "#")
        | "%TAG" :: _ :: _ :: _ => true
        | _ => false
      if known then directives? fuel true ((c.forward line.length).next false) else none
    else some (seen, c)

/-- Nothing but one end of the document and comments follow. -/
def isComplete (c : Cursor) : Bool :=
  c.rest.isEmpty ||
    (c.column = 0 && isMarker c.rest && c.rest.head? = some '.' &&
      ((c.forward 3).next false).rest.isEmpty)

/-- A document from after its first marker, or without one. -/
def rootNode? (fuel : Nat) (marked : Bool) (c : Cursor) : Option (Node × Cursor × Cursor) :=
  let next := if marked then (c.forward 3).next true else c
  if next.atEnd then some (.empty, next, next)
  else
    (blockNode? fuel 0 (!marked || next.line ≠ c.line) next).map fun (node, after) =>
      (node, next, after.next true)

/-- The only document of a text. -/
def Document.ofText? (text : String) : Option Document :=
  let cs := match text.toList with
    | '\ufeff' :: rest => rest
    | cs => cs
  if !cs.all isAllowed then none
  else
    let fuel := 4 * cs.length + 8
    match directives? fuel false ((Cursor.start (normalizeBreaks cs)).next false) with
    | none => none
    | some (directed, c) =>
      let marked := c.column = 0 && isMarker c.rest && c.rest.head? = some '-'
      if c.rest.isEmpty && !directed then some ⟨none, 0, 0⟩
      else if directed && !marked then none
      else
        match rootNode? fuel marked c with
        | none => none
        | some (node, start, after) =>
          if isComplete after then
            (node.resolve []).map fun (node, _) => ⟨some node, start.line, start.column⟩
          else none

end RowReplay.Yaml
