/-!
Floating-point numbers with 53 significant bits, computed exactly on natural numbers: every finite
magnitude is a whole number of units of `2 ^ -1074`, and every operation is one exact quotient
rounded once, to the nearest representable magnitude, ties to the even one.
-/
namespace RowReplay

/-- The whole number nearest to `num / den`, the even one of two equally near. -/
def roundQuotient (num den : Nat) : Nat :=
  let q := num / den
  let r := num % den
  if 2 * r < den then q
  else if den < 2 * r then q + 1
  else if q % 2 = 0 then q else q + 1

/-- A representable magnitude: `mantissa * 2 ^ scale` units of `2 ^ -1074`. The mantissa has all of
its 53 bits unless the scale is the least one, so equal magnitudes are equal structures. -/
structure Magnitude where
  mantissa : Nat
  scale : Nat
  canonical : mantissa < Nat.pow 2 53 ∧ scale ≤ 2045 ∧ (scale = 0 ∨ Nat.pow 2 52 ≤ mantissa)
  deriving DecidableEq

namespace Magnitude

/-- The number of units of `2 ^ -1074`. -/
def units (m : Magnitude) : Nat := m.mantissa * Nat.pow 2 m.scale

/-- The units in the magnitude one. -/
def unitsOfOne : Nat := Nat.pow 2 1074

/-- The magnitude with this mantissa and scale, if it is representable. -/
def make? (mantissa scale : Nat) : Option Magnitude :=
  if h : mantissa < Nat.pow 2 53 ∧ scale ≤ 2045 ∧ (scale = 0 ∨ Nat.pow 2 52 ≤ mantissa) then
    some ⟨mantissa, scale, h⟩
  else none

def zero : Magnitude := ⟨0, 0, by decide⟩

def one : Magnitude := ⟨Nat.pow 2 52, 1022, by decide⟩

/-- The magnitude nearest to `num / den` units; `none` when that is beyond the largest. -/
def ofUnits? (num den : Nat) : Option Magnitude :=
  let scale := (num / den).log2 - 52
  let mantissa := roundQuotient num (den * Nat.pow 2 scale)
  if mantissa < Nat.pow 2 53 then make? mantissa scale else make? (Nat.pow 2 52) (scale + 1)

/-- The magnitude nearest to the quotient `num / den`. -/
def ofQuotient? (num den : Nat) : Option Magnitude := ofUnits? (num * unitsOfOne) den

def ofNat? (n : Nat) : Option Magnitude := ofQuotient? n 1

def add? (a b : Magnitude) : Option Magnitude := ofUnits? (a.units + b.units) 1

def mul? (a b : Magnitude) : Option Magnitude := ofUnits? (a.units * b.units) unitsOfOne

def div? (a b : Magnitude) : Option Magnitude := ofQuotient? a.units b.units

end Magnitude

/-- A binary floating-point number of 64 bits. -/
inductive Binary64
  | nan
  | infinite (negative : Bool)
  | finite (negative : Bool) (magnitude : Magnitude)
  deriving DecidableEq

namespace Binary64

instance : Inhabited Binary64 := ⟨.finite false .zero⟩

def isFinite : Binary64 → Bool
  | .finite .. => true
  | _ => false

/-- Rounding overflows to infinity. -/
def ofMagnitude (negative : Bool) : Option Magnitude → Binary64
  | some m => .finite negative m
  | none => .infinite negative

/-- The number nearest to an integer. -/
def ofInt (i : Int) : Binary64 := ofMagnitude (decide (i < 0)) (Magnitude.ofNat? i.natAbs)

/-- The largest decimal exponent that is worth computing with: a number whose leading digit stands
further out rounds to infinity or to zero. -/
def decimalRange : Int := 400

/-- The number nearest to `digits * 10 ^ exponent`. -/
def ofDecimal (negative : Bool) (digits : Nat) (exponent : Int) : Binary64 :=
  if digits = 0 then .finite negative .zero
  else
    let leading := (Nat.toDigits 10 digits).length + exponent
    if decimalRange < leading then .infinite negative
    else if leading < -decimalRange then .finite negative .zero
    else if 0 ≤ exponent then
      ofMagnitude negative (Magnitude.ofQuotient? (digits * Nat.pow 10 exponent.toNat) 1)
    else
      ofMagnitude negative (Magnitude.ofQuotient? digits (Nat.pow 10 (-exponent).toNat))

/-- The signed number of units of `2 ^ -1074`, for a finite number. -/
def units? : Binary64 → Option Int
  | .finite negative m => some (if negative then -(m.units : Int) else m.units)
  | _ => none

/-- Numeric equality: the two zeros are equal and NaN equals nothing. -/
def equal : Binary64 → Binary64 → Bool
  | .infinite a, .infinite b => a == b
  | a, b =>
    match a.units?, b.units? with
    | some x, some y => x == y
    | _, _ => false

/-- Greater than zero and at most one. -/
def isProperFraction : Binary64 → Bool
  | .finite false m => 0 < m.units && m.units ≤ Magnitude.unitsOfOne
  | _ => false

/-- The nearest magnitude between zero and one; what is not finite counts as one. -/
def clampToUnit : Binary64 → Magnitude
  | .finite true _ => .zero
  | .finite false m => if m.units ≤ Magnitude.unitsOfOne then m else .one
  | _ => .one

end Binary64

end RowReplay
