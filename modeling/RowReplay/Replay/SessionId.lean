import RowReplay.Json.Parser
import RowReplay.Text.Quoted

/-!
Identifiers of replay sessions: a number of 128 bits, written in hexadecimal groups, or the number
of a replay where sessions are counted instead.
-/
namespace RowReplay

inductive SessionId
  | uuid (value : Nat)
  | numbered (replay : Nat)
  deriving DecidableEq, Inhabited

namespace SessionId

/-- The lengths of the groups of hexadecimal digits. -/
def groups : List Nat := [8, 4, 4, 4, 12]

/-- Cuts digits into groups with a hyphen between them. -/
def hyphenated : List Nat → List Char → List Char
  | [], cs => cs
  | [_], cs => cs
  | n :: rest, cs => cs.take n ++ '-' :: hyphenated rest (cs.drop n)

/-- The digits of hyphenated groups. -/
def dehyphenated? : List Nat → List Char → Option (List Char)
  | [], cs => if cs.isEmpty then some [] else none
  | [n], cs => if cs.length = n then some cs else none
  | n :: rest, cs =>
    match cs.drop n with
    | '-' :: more => (dehyphenated? rest more).map (cs.take n ++ ·)
    | _ => none

/-- The number that 32 hexadecimal digits write. -/
def ofHex? (cs : List Char) : Option SessionId :=
  if cs.length = 32 then
    (cs.mapM Json.hexDigit?).map fun ds => .uuid (ds.foldl (fun n d => 16 * n + d) 0)
  else none

/-- Hyphenated or bare digits. -/
def ofBare? (cs : List Char) : Option SessionId :=
  if cs.length = 32 then ofHex? cs else (dehyphenated? groups cs).bind ofHex?

/-- Digits with or without hyphens, or with hyphens between braces or after `urn:uuid:`. -/
def ofText? (s : String) : Option SessionId :=
  let cs := s.toList
  match cs.length with
  | 45 =>
    if "urn:uuid:".toList.isPrefixOf cs then (dehyphenated? groups (cs.drop 9)).bind ofHex?
    else none
  | 38 =>
    if cs.head? = some '\x7b' ∧ cs.getLast? = some '\x7d' then
      (dehyphenated? groups (cs.drop 1).dropLast).bind ofHex?
    else none
  | _ => ofBare? cs

/-- Lower-case digits in hyphenated groups, or a hash sign and the number. -/
def text : SessionId → String
  | .uuid value => String.ofList (hyphenated groups (Text.hexPadded 32 value).toList)
  | .numbered replay => "#" ++ toString replay

end SessionId

end RowReplay
