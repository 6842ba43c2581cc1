import RowReplay.Number.Decimal
import RowReplay.Proofs.Number.Rounding

/-!
Decimal numbers and the floating-point numbers that they are read as: only the value of a decimal
counts, and the shortest decimal of a magnitude is read as that magnitude.
-/
namespace RowReplay

section Digits

variable {n k : Nat} {l m : List Char}

@[simp] theorem digitsValue_toDigits (n : Nat) : digitsValue (Nat.toDigits 10 n) = n :=
  Nat.ofDigitChars_ten_toDigits

theorem digitsValue_append (l m : List Char) :
    digitsValue (l ++ m) = 10 ^ m.length * digitsValue l + digitsValue m :=
  (Nat.ofDigitChars_append 0).trans Nat.ofDigitChars_eq_ofDigitChars_zero

@[simp] theorem digitsValue_zeros (k : Nat) : digitsValue (List.replicate k '0') = 0 := by
  have h : Nat.ofDigitChars 10 (List.replicate k '0') 0 = _ := Nat.ofDigitChars_replicate_zero
  rwa [Nat.mul_zero] at h

theorem length_toDigits_mul_ten (hn : n ≠ 0) :
    (Nat.toDigits 10 (n * 10)).length = (Nat.toDigits 10 n).length + 1 := by
  rw [Nat.toDigits_of_base_le (by decide) (by omega), Nat.mul_div_cancel _ (by decide),
    List.length_append]
  rfl

end Digits

namespace Binary64

variable {negative : Bool} {m : Magnitude} {n : Nat} {e : Int}

/-- The place above the leading digit of a decimal. -/
def leadingPlace (n : Nat) (e : Int) : Int := (Nat.toDigits 10 n).length + e

theorem leadingPlace_mul_ten (hn : n ≠ 0) (e : Int) :
    leadingPlace (n * 10) e = leadingPlace n (e + 1) := by
  unfold leadingPlace
  rw [length_toDigits_mul_ten hn]
  omega

theorem ofDecimal_of_high (negative : Bool) (hn : n ≠ 0) (h : decimalRange < leadingPlace n e) :
    ofDecimal negative n e = .infinite negative := by
  unfold ofDecimal
  rw [if_neg hn]
  exact if_pos h

theorem ofDecimal_of_low (negative : Bool) (hn : n ≠ 0) (h : leadingPlace n e < -decimalRange) :
    ofDecimal negative n e = .finite negative .zero := by
  unfold ofDecimal
  rw [if_neg hn]
  refine (if_neg (not_lt.mpr ?_)).trans (if_pos h)
  unfold leadingPlace decimalRange at *
  omega

/-- Within the range of exponents the nearest magnitude is taken, however the power of ten is
written. -/
theorem ofDecimal_eq_ofQuotient? (negative : Bool) {a b : Nat} (hn : n ≠ 0)
    (hhigh : leadingPlace n e ≤ decimalRange) (hlow : -decimalRange ≤ leadingPlace n e)
    (he : (a : Int) - b = e) :
    ofDecimal negative n e =
      ofMagnitude negative (Magnitude.ofQuotient? (n * 10 ^ a) (10 ^ b)) := by
  have hunits (p q : Nat) (hq : 0 < q) (h : p * 10 ^ b = n * 10 ^ a * q) :
      Magnitude.ofQuotient? p q = Magnitude.ofQuotient? (n * 10 ^ a) (10 ^ b) := by
    unfold Magnitude.ofQuotient?
    refine Magnitude.ofUnits?_congr hq (Nat.pow_pos (by decide)) ?_
    calc p * Magnitude.unitsOfOne * 10 ^ b
        = p * 10 ^ b * Magnitude.unitsOfOne := by ring
      _ = n * 10 ^ a * Magnitude.unitsOfOne * q := by rw [h]; ring
  unfold ofDecimal
  rw [if_neg hn]
  dsimp only
  rw [if_neg (by exact not_lt.mpr hhigh), if_neg (by exact not_lt.mpr hlow)]
  split
  · next hpos =>
    rw [Nat.pow_eq, hunits _ _ Nat.one_pos]
    rw [Nat.mul_one, Nat.mul_assoc, ← Nat.pow_add]
    congr 2
    omega
  · next hneg =>
    rw [Nat.pow_eq, hunits _ _ (Nat.pow_pos (by decide))]
    rw [Nat.mul_assoc, ← Nat.pow_add]
    congr 2
    omega

/-- The zeros at the end of the digits may as well stand in the exponent. -/
theorem ofDecimal_mul_ten (negative : Bool) (n : Nat) (e : Int) :
    ofDecimal negative (n * 10) e = ofDecimal negative n (e + 1) := by
  by_cases hn : n = 0
  · rw [hn]
    rfl
  have hn' : n * 10 ≠ 0 := by omega
  have hplace := leadingPlace_mul_ten hn e
  rcases lt_or_ge decimalRange (leadingPlace n (e + 1)) with hhigh | hhigh
  · rw [ofDecimal_of_high negative hn hhigh, ofDecimal_of_high negative hn' (hplace ▸ hhigh)]
  rcases lt_or_ge (leadingPlace n (e + 1)) (-decimalRange) with hlow | hlow
  · rw [ofDecimal_of_low negative hn hlow, ofDecimal_of_low negative hn' (hplace ▸ hlow)]
  · rw [ofDecimal_eq_ofQuotient? negative hn' (hplace ▸ hhigh) (hplace ▸ hlow) (a := e.toNat)
        (b := (-e).toNat) (by omega),
      ofDecimal_eq_ofQuotient? negative hn hhigh hlow (a := e.toNat + 1) (b := (-e).toNat)
        (by omega), Nat.mul_assoc, Nat.pow_succ']

theorem ofDecimal_mul_pow (negative : Bool) (n k : Nat) (e : Int) :
    ofDecimal negative (n * 10 ^ k) e = ofDecimal negative n (e + k) := by
  induction k generalizing e with
  | zero => simp
  | succ k ih =>
    rw [Nat.pow_succ, ← Nat.mul_assoc, ofDecimal_mul_ten, ih]
    congr 1
    omega

/-- A sign is only put in front. -/
theorem ofDecimal_of_finite (negative : Bool) (h : ofDecimal false n e = .finite false m) :
    ofDecimal negative n e = .finite negative m := by
  have hmagnitude (o : Option Magnitude) (h : ofMagnitude false o = .finite false m) :
      ofMagnitude negative o = .finite negative m := by
    cases o with
    | none => contradiction
    | some m' => rw [(Binary64.finite.inj h).2]; rfl
  unfold ofDecimal at h ⊢
  dsimp only at h ⊢
  repeat' split at h
  · next hn => rw [if_pos hn, (Binary64.finite.inj h).2]
  · contradiction
  · next hn hhigh hlow => rw [if_neg hn, if_neg hhigh, if_pos hlow, (Binary64.finite.inj h).2]
  · next hn hhigh hlow he => rw [if_neg hn, if_neg hhigh, if_neg hlow, if_pos he, hmagnitude _ h]
  · next hn hhigh hlow he => rw [if_neg hn, if_neg hhigh, if_neg hlow, if_neg he, hmagnitude _ h]

end Binary64

namespace Decimal

variable {d : Decimal} {m : Magnitude} {tiesUp : Bool} {e : Int}

/-- The decimal is positive and is read as the magnitude. -/
def Writes (d : Decimal) (m : Magnitude) : Prop :=
  d.digits ≠ 0 ∧ Binary64.ofDecimal false d.digits d.exponent = .finite false m

theorem writes_of_readsAs (hd : d.digits ≠ 0) (h : d.readsAs m = true) : d.Writes m :=
  ⟨hd, beq_iff_eq.mp h⟩

theorem writes_of_nearestOnGrid? (h : nearestOnGrid? tiesUp m e = some d) : d.Writes m := by
  have hpick (first second : Decimal)
      (h : (if first.digits ≠ 0 && first.readsAs m then some first
        else if second.digits ≠ 0 && second.readsAs m then some second else none) = some d) :
      d.Writes m := by
    simp only [Bool.and_eq_true, decide_eq_true_eq] at h
    split at h
    · next hfirst => exact Option.some.inj h ▸ writes_of_readsAs hfirst.1 hfirst.2
    · split at h
      · next hsecond => exact Option.some.inj h ▸ writes_of_readsAs hsecond.1 hsecond.2
      · contradiction
  exact hpick _ _ h

/-- All digits of a magnitude are as many as the decimal point can be moved over. -/
theorem writes_exact (hm : 0 < m.units) : (exact m).Writes m := by
  obtain ⟨k, hk⟩ : ∃ k, k = 1074 := ⟨_, rfl⟩
  have hexact : exact m = ⟨m.units * Nat.pow 5 k, -(k : Int)⟩ := by
    have hcast : (-1074 : Int) = -(k : Int) := by omega
    unfold exact
    rw [hcast, ← hk]
  have hone : Magnitude.unitsOfOne = 2 ^ k := hk ▸ Magnitude.unitsOfOne_eq
  have hpos : m.units * 5 ^ k ≠ 0 := Nat.ne_of_gt (Nat.mul_pos hm (Nat.pow_pos (by decide)))
  have hhigh : (Nat.toDigits 10 (m.units * 5 ^ k)).length ≤ 400 + k := by
    rw [Nat.length_toDigits_le_iff (by decide) (by omega)]
    have hlimit : Magnitude.unitsLimit * 5 ^ k ≤ 10 ^ (400 + k) := by
      rw [hk]
      decide +kernel
    exact Nat.lt_of_lt_of_le
      (Nat.mul_lt_mul_of_pos_right (Magnitude.units_lt m) (Nat.pow_pos (by decide))) hlimit
  have hlow : k ≤ (Nat.toDigits 10 (m.units * 5 ^ k)).length + 400 := by
    by_contra hlt
    have hlength : (Nat.toDigits 10 (m.units * 5 ^ k)).length ≤ 673 := by omega
    rw [Nat.length_toDigits_le_iff (by decide) (by decide)] at hlength
    have hlimit : 10 ^ 673 ≤ 5 ^ k := by
      rw [hk]
      decide +kernel
    have := Nat.le_mul_of_pos_left (5 ^ k) hm
    omega
  rw [hexact, Nat.pow_eq]
  refine ⟨hpos, ?_⟩
  change Binary64.ofDecimal false (m.units * 5 ^ k) (-(k : Int)) = _
  rw [Binary64.ofDecimal_eq_ofQuotient? false hpos (a := 0) (b := k)
    (by unfold Binary64.leadingPlace Binary64.decimalRange; omega)
    (by unfold Binary64.leadingPlace Binary64.decimalRange; omega) (by omega)]
  have hunits : Magnitude.ofQuotient? (m.units * 5 ^ k * 10 ^ 0) (10 ^ k) = some m := by
    unfold Magnitude.ofQuotient?
    rw [hone, Nat.pow_zero, Nat.mul_one, Nat.mul_assoc, ← Nat.mul_pow]
    exact Magnitude.ofUnits?_units m (Nat.pow_pos (by decide))
  rw [hunits]
  rfl

theorem writes_shortestFrom (hm : 0 < m.units) (tiesUp : Bool) (leading : Int)
    (fuel places : Nat) : (shortestFrom tiesUp m leading fuel places).Writes m := by
  induction fuel generalizing places with
  | zero => exact writes_exact hm
  | succ fuel ih =>
    unfold shortestFrom
    split
    · next hgrid => exact writes_of_nearestOnGrid? hgrid
    · exact ih (places + 1)

theorem Writes.trimmed (h : d.Writes m) (fuel : Nat) : (trimmed fuel d).Writes m := by
  induction fuel generalizing d with
  | zero => exact h
  | succ fuel ih =>
    unfold Decimal.trimmed
    split
    · next hzero =>
      rw [Bool.and_eq_true, decide_eq_true_eq, decide_eq_true_eq] at hzero
      obtain ⟨hmod, hne⟩ := hzero
      have hten : d.digits / 10 * 10 = d.digits := Nat.div_mul_cancel (Nat.dvd_of_mod_eq_zero hmod)
      refine ih ⟨?_, ?_⟩
      · show d.digits / 10 ≠ 0
        omega
      · have hmove := Binary64.ofDecimal_mul_ten false (d.digits / 10) d.exponent
        rw [hten] at hmove
        exact hmove.symm.trans h.2
    · exact h

/-- The shortest decimal of a magnitude is read as that magnitude. -/
theorem writes_shortest (tiesUp : Bool) (hm : 0 < m.units) : (shortest tiesUp m).Writes m :=
  (writes_shortestFrom hm tiesUp _ _ _).trimmed _

end Decimal

end RowReplay
