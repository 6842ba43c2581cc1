import RowReplay.Json.Parser

/-!
What plain text stands for in YAML: nothing, a truth value, a number, or itself. Whole numbers are
read up to 128 bits; what is longer is read as a floating one.
-/
namespace RowReplay.Yaml

/-- What a plain scalar stands for. -/
inductive PlainValue
  | null
  | bool (b : Bool)
  | int (i : Int)
  | float (x : Binary64)
  | text
  deriving DecidableEq

def isNullWord (s : String) : Bool := s = "null" || s = "Null" || s = "NULL" || s = "~"

def boolOfWord? (s : String) : Option Bool :=
  if s = "true" || s = "True" || s = "TRUE" then some true
  else if s = "false" || s = "False" || s = "FALSE" then some false
  else none

/-- Without the sign in front. -/
def unsigned (cs : List Char) : List Char :=
  match cs with
  | '+' :: rest => rest
  | '-' :: rest => rest
  | _ => cs

/-- Digits that begin with a zero, which are text. -/
def isZeroLed (cs : List Char) : Bool :=
  match unsigned cs with
  | '0' :: c :: rest => (c :: rest).all Char.isDigit
  | _ => false

/-- The number that digits of a base write. -/
def natInBase? (base : Nat) (cs : List Char) : Option Nat :=
  if cs.isEmpty then none
  else
    (cs.mapM Json.hexDigit?).bind fun digits =>
      if digits.all (· < base) then some (digits.foldl (fun n d => base * n + d) 0) else none

/-- A number with a mark of its base: hexadecimal, octal or binary. -/
def natMarked? (cs : List Char) : Option Nat :=
  match cs with
  | '0' :: 'x' :: digits => natInBase? 16 digits
  | '0' :: 'o' :: digits => natInBase? 8 digits
  | '0' :: 'b' :: digits => natInBase? 2 digits
  | _ => none

/-- A whole number without a minus, with or without a plus, below a bound. -/
def natOfPlain? (bound : Nat) (s : String) : Option Nat :=
  let digits := match s.toList with
    | '+' :: rest => rest
    | cs => cs
  match (natMarked? digits).filter (· < bound) with
  | some n => some n
  | none => if isZeroLed s.toList then none else (natOfDigits? digits).filter (· < bound)

/-- A whole number of so many bits, with a minus. -/
def negativeOfPlain? (bits : Nat) (s : String) : Option Int :=
  match s.toList with
  | '-' :: digits =>
    let found := match natMarked? digits with
      | some n => some n
      | none => if isZeroLed digits then none else natOfDigits? digits
    (found.filter (· ≤ Nat.pow 2 (bits - 1))).map fun n => -(n : Int)
  | _ => none

/-- A floating number: a numeral, or a point and a word. -/
def floatOfPlain? (s : String) : Option Binary64 :=
  let plus := match s.toList with
    | '+' :: rest => rest
    | cs => cs
  let isTwiceSigned := s.startsWith "+" && (plus.head? = some '+' || plus.head? = some '-')
  let word := String.ofList plus
  if isTwiceSigned then none
  else if word = ".inf" || word = ".Inf" || word = ".INF" then some (.infinite false)
  else if s = "-.inf" || s = "-.Inf" || s = "-.INF" then some (.infinite true)
  else if s = ".nan" || s = ".NaN" || s = ".NAN" then some .nan
  else (Binary64.ofText? plus).filter Binary64.isFinite

/-- What a plain scalar stands for. -/
def PlainValue.ofText (s : String) : PlainValue :=
  if s.isEmpty || isNullWord s then .null
  else
    match boolOfWord? s with
    | some b => .bool b
    | none =>
      match natOfPlain? (Nat.pow 2 128) s with
      | some n => .int n
      | none =>
        match negativeOfPlain? 128 s with
        | some i => .int i
        | none =>
          if isZeroLed s.toList then .text
          else
            match floatOfPlain? s with
            | some x => .float x
            | none => .text

end RowReplay.Yaml
