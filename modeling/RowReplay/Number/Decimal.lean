import RowReplay.Number.Binary64

/-!
Decimal text of floating-point numbers: reading a numeral as the nearest number, and writing a
number with the fewest digits that read back to it. How the digits are laid out is a record, one for
each format that is written.
-/
namespace RowReplay

/-- The digits at the front of a text, and the rest. -/
def spanDigits (cs : List Char) : List Char × List Char :=
  (cs.takeWhile Char.isDigit, cs.dropWhile Char.isDigit)

/-- The number that a list of decimal digits writes. -/
def digitsValue (cs : List Char) : Nat :=
  cs.foldl (fun n c => 10 * n + (c.toNat - '0'.toNat)) 0

/-- A whole decimal number: one digit at least and nothing else. -/
def natOfDigits? (cs : List Char) : Option Nat :=
  if cs.isEmpty || !cs.all Char.isDigit then none else some (digitsValue cs)

/-- A decimal number with an optional plus sign, below the bound. -/
def natBelow? (bound : Nat) (cs : List Char) : Option Nat :=
  let digits := match cs with
    | '+' :: rest => rest
    | _ => cs
  (natOfDigits? digits).filter (· < bound)

/-- A decimal number with an optional sign, in the range of 64-bit integers. -/
def intOfDigits? (cs : List Char) : Option Int :=
  match cs with
  | '-' :: digits => (natOfDigits? digits).bind fun n =>
      if n ≤ Nat.pow 2 63 then some (-(n : Int)) else none
  | _ => (natBelow? (Nat.pow 2 63) cs).map Int.ofNat

namespace Binary64

/-- The exponent part of a numeral: absent, or a mark, an optional sign and digits. -/
def exponentPart? : List Char → Option Int
  | [] => some 0
  | mark :: rest =>
    if mark == 'e' || mark == 'E' then
      match rest with
      | '+' :: ds => (natOfDigits? ds).map Int.ofNat
      | '-' :: ds => (natOfDigits? ds).map fun n => -(n : Int)
      | ds => (natOfDigits? ds).map Int.ofNat
    else none

/-- Digits with an optional point and exponent; a digit stands before the point or after it. -/
def ofNumeral? (negative : Bool) (cs : List Char) : Option Binary64 :=
  let (whole, rest) := spanDigits cs
  let (fraction, tail) := match rest with
    | '.' :: more => spanDigits more
    | _ => ([], rest)
  if whole.isEmpty && fraction.isEmpty then none
  else (exponentPart? tail).map fun e =>
    ofDecimal negative (digitsValue (whole ++ fraction)) (e - fraction.length)

/-- An unsigned numeral or one of the words `inf`, `infinity` and `nan`, in any case. -/
def ofUnsigned? (negative : Bool) (cs : List Char) : Option Binary64 :=
  match String.ofList (cs.map Char.toLower) with
  | "inf" | "infinity" => some (.infinite negative)
  | "nan" => some .nan
  | _ => ofNumeral? negative cs

/-- The number nearest to what a text writes. -/
def ofText? (cs : List Char) : Option Binary64 :=
  match cs with
  | '-' :: rest => ofUnsigned? true rest
  | '+' :: rest => ofUnsigned? false rest
  | _ => ofUnsigned? false cs

end Binary64

/-- A positive decimal number: `digits * 10 ^ exponent`. -/
structure Decimal where
  digits : Nat
  exponent : Int
  deriving DecidableEq

namespace Decimal

/-- The power of ten, as a quotient. -/
def tenPower (e : Int) : Nat × Nat :=
  if 0 ≤ e then (Nat.pow 10 e.toNat, 1) else (1, Nat.pow 10 (-e).toNat)

/-- The decimal reads back as the magnitude. -/
def readsAs (d : Decimal) (m : Magnitude) : Bool :=
  Binary64.ofDecimal false d.digits d.exponent == .finite false m

/-- Without trailing zeros. -/
def trimmed (fuel : Nat) (d : Decimal) : Decimal :=
  match fuel with
  | 0 => d
  | fuel + 1 =>
    if d.digits % 10 = 0 && d.digits ≠ 0 then trimmed fuel ⟨d.digits / 10, d.exponent + 1⟩ else d

/-- The exponent of the leading decimal digit of `num / den`, both positive. -/
def leadingExponent (num den : Nat) : Int :=
  if den ≤ num then ((Nat.toDigits 10 (num / den)).length : Int) - 1
  else
    let k := (Nat.toDigits 10 (den / num)).length
    -- `den / num < 10 ^ k`, so the leading digit stands at place `-k` or one above it
    if den ≤ num * Nat.pow 10 (k - 1) then -((k : Int) - 1) else -(k : Int)

/-- Of the two neighbours of the magnitude on the grid of `10 ^ e`, the nearest that reads back;
`tiesUp` takes the upper one of two equally near, otherwise the even one is taken. -/
def nearestOnGrid? (tiesUp : Bool) (m : Magnitude) (e : Int) : Option Decimal :=
  let (tenNum, tenDen) := tenPower e
  let num := m.units * tenDen
  let den := Magnitude.unitsOfOne * tenNum
  let low := num / den
  let rest := num % den
  let lower : Decimal := ⟨low, e⟩
  let upper : Decimal := ⟨low + 1, e⟩
  let preferUpper := den < 2 * rest || (2 * rest = den && (tiesUp || low % 2 = 1))
  let (first, second) := if preferUpper then (upper, lower) else (lower, upper)
  if first.digits ≠ 0 && first.readsAs m then some first
  else if second.digits ≠ 0 && second.readsAs m then some second
  else none

/-- All digits of a magnitude, without rounding. -/
def exact (m : Magnitude) : Decimal :=
  -- `units / 2 ^ 1074 = units * 5 ^ 1074 / 10 ^ 1074`
  ⟨m.units * Nat.pow 5 1074, -1074⟩

/-- The first grid, from the coarsest, with a neighbour that reads back. -/
def shortestFrom (tiesUp : Bool) (m : Magnitude) (leading : Int) : Nat → Nat → Decimal
  | 0, _ => exact m
  | fuel + 1, places =>
    match nearestOnGrid? tiesUp m (leading - places) with
    | some d => d
    | none => shortestFrom tiesUp m leading fuel (places + 1)

/-- The fewest digits that read back to a positive magnitude, and of those the nearest. -/
def shortest (tiesUp : Bool) (m : Magnitude) : Decimal :=
  let leading := leadingExponent m.units Magnitude.unitsOfOne
  trimmed 1100 (shortestFrom tiesUp m leading 17 0)

end Decimal

/-- How a format writes floating-point numbers. -/
structure NumeralLayout where
  /-- The point stands after this many digits at most, else an exponent is written. -/
  highest : Option Int
  /-- The point stands after more than this many digits, else an exponent is written. -/
  lowest : Option Int
  /-- What follows the digits of a whole number. -/
  wholeTail : String
  /-- What marks a positive exponent. -/
  exponentPlus : String
  nan : String
  infinity : String
  negativeInfinity : String
  tiesUp : Bool

namespace NumeralLayout

/-- Plain text: never an exponent, and a whole number has no point. -/
def display : NumeralLayout :=
  ⟨none, none, "", "", "NaN", "inf", "-inf", true⟩

/-- Plain text with at least one decimal. -/
def pointed : NumeralLayout := { display with wholeTail := ".0" }

/-- JSON text: at least one decimal, and an exponent from `1e+16` up and below `1e-5`. -/
def json : NumeralLayout :=
  ⟨some 16, some (-5), ".0", "+", "null", "null", "null", false⟩

/-- YAML text: as JSON text, without the plus and with words for what is not finite. -/
def yaml : NumeralLayout :=
  ⟨some 16, some (-5), ".0", "", ".nan", ".inf", "-.inf", false⟩

/-- The text of a positive decimal number. -/
def decimalText (layout : NumeralLayout) (d : Decimal) : String :=
  let digits := Nat.toDigits 10 d.digits
  let point : Int := digits.length + d.exponent
  let positional := layout.highest.all (point ≤ ·) && layout.lowest.all (· < point)
  if !positional then
    let whole := digits.take 1
    let fraction := digits.drop 1
    let mantissa := if fraction.isEmpty then whole else whole ++ '.' :: fraction
    let e := point - 1
    let mark := if 0 ≤ e then layout.exponentPlus else "-"
    String.ofList mantissa ++ "e" ++ mark ++ toString e.natAbs
  else if 0 ≤ d.exponent then
    String.ofList (digits ++ List.replicate d.exponent.toNat '0') ++ layout.wholeTail
  else if 0 < point then
    String.ofList (digits.take point.toNat ++ '.' :: digits.drop point.toNat)
  else
    "0." ++ String.ofList (List.replicate (-point).toNat '0' ++ digits)

/-- The text of a number. -/
def text (layout : NumeralLayout) : Binary64 → String
  | .nan => layout.nan
  | .infinite negative => if negative then layout.negativeInfinity else layout.infinity
  | .finite negative m =>
    (if negative then "-" else "") ++
      if m.units = 0 then "0" ++ layout.wholeTail
      else layout.decimalText (Decimal.shortest layout.tiesUp m)

end NumeralLayout

end RowReplay
