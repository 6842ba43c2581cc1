import Mathlib.Data.Nat.Dist
import Mathlib.Data.Nat.Log
import Mathlib.Tactic.Positivity
import Mathlib.Tactic.Ring
import RowReplay.Number.Binary64

/-!
What rounding to 53 significant bits does: it depends on the value of the quotient alone, keeps the
order, leaves alone what is representable, and finds the nearest.
-/
namespace RowReplay

section Quotients

variable {a b c d k n : Nat}

/-- The nearest whole number is less than one half away, or just one half and then even. -/
theorem roundQuotient_cases (n d : Nat) :
    (2 * (n % d) ≤ d ∧ roundQuotient n d = n / d) ∨
      (d ≤ 2 * (n % d) ∧ roundQuotient n d = n / d + 1) := by
  unfold roundQuotient
  dsimp only
  split
  · left; omega
  · split
    · right; omega
    · split
      · left; omega
      · right; omega

theorem roundQuotient_mul_left (n d : Nat) (hk : 0 < k) :
    roundQuotient (k * n) (k * d) = roundQuotient n d := by
  have hlow : 2 * (k * (n % d)) < k * d ↔ 2 * (n % d) < d := by
    rw [Nat.mul_left_comm]
    exact Nat.mul_lt_mul_left hk
  have hhigh : k * d < 2 * (k * (n % d)) ↔ d < 2 * (n % d) := by
    rw [Nat.mul_left_comm 2]
    exact Nat.mul_lt_mul_left hk
  unfold roundQuotient
  simp only [Nat.mul_div_mul_left _ _ hk, Nat.mul_mod_mul_left, hlow, hhigh]

theorem roundQuotient_le_roundQuotient (d : Nat) (h : a ≤ b) :
    roundQuotient a d ≤ roundQuotient b d := by
  have hdiv : a / d ≤ b / d := Nat.div_le_div_right h
  rcases Nat.eq_or_lt_of_le hdiv with heq | hlt
  · have hmod : a % d ≤ b % d := by
      have ha := Nat.div_add_mod a d
      have hb := Nat.div_add_mod b d
      rw [heq] at ha
      omega
    unfold roundQuotient
    dsimp only
    rw [heq]
    repeat' split
    all_goals omega
  · rcases roundQuotient_cases a d with ⟨-, ha⟩ | ⟨-, ha⟩ <;>
      rcases roundQuotient_cases b d with ⟨-, hb⟩ | ⟨-, hb⟩ <;> omega

@[simp] theorem roundQuotient_mul_right (hd : 0 < d) : roundQuotient (n * d) d = n := by
  rcases roundQuotient_cases (n * d) d with ⟨-, h⟩ | ⟨hmod, -⟩
  · rw [h, Nat.mul_div_cancel _ hd]
  · rw [Nat.mul_mod_left] at hmod
    omega

/-- The nearest whole number is at most one half away. -/
theorem roundQuotient_near (n : Nat) (hd : 0 < d) :
    2 * (roundQuotient n d * d) ≤ 2 * n + d ∧ 2 * n ≤ 2 * (roundQuotient n d * d) + d := by
  have hn := Nat.div_add_mod' n d
  have hlt := Nat.mod_lt n hd
  rcases roundQuotient_cases n d with ⟨hmod, h⟩ | ⟨hmod, h⟩
  · rw [h]
    omega
  · rw [h, Nat.add_mul, Nat.one_mul]
    omega

theorem roundQuotient_nearest (n k : Nat) (hd : 0 < d) :
    Nat.dist (roundQuotient n d * d) n ≤ Nat.dist (k * d) n := by
  obtain ⟨h₁, h₂⟩ := roundQuotient_near n hd
  unfold Nat.dist
  rcases Nat.lt_trichotomy k (roundQuotient n d) with hlt | heq | hgt
  · have hle := Nat.mul_le_mul_right d (Nat.succ_le_of_lt hlt)
    rw [Nat.succ_mul] at hle
    omega
  · rw [heq]
  · have hle := Nat.mul_le_mul_right d (Nat.succ_le_of_lt hgt)
    rw [Nat.succ_mul] at hle
    omega

/-- A whole number less than one half away is the nearest. -/
theorem roundQuotient_eq_of_near (hlow : 2 * (k * d) < 2 * n + d)
    (hhigh : 2 * n < 2 * (k * d) + d) : roundQuotient n d = k := by
  have hd : 0 < d := by omega
  obtain ⟨h₁, h₂⟩ := roundQuotient_near n hd
  have hle : roundQuotient n d < k + 1 := by
    apply Nat.lt_of_mul_lt_mul_right (a := d)
    rw [Nat.succ_mul]
    omega
  have hge : k < roundQuotient n d + 1 := by
    apply Nat.lt_of_mul_lt_mul_right (a := d)
    rw [Nat.succ_mul]
    omega
  omega

theorem roundQuotient_lt_of_lt (hd : 0 < d) (h : n < k * d) : roundQuotient n d ≤ k := by
  have hle := roundQuotient_le_roundQuotient d (Nat.le_of_lt h)
  rwa [roundQuotient_mul_right hd] at hle

theorem le_roundQuotient_of_le (hd : 0 < d) (h : k * d ≤ n) : k ≤ roundQuotient n d := by
  have hle := roundQuotient_le_roundQuotient d h
  rwa [roundQuotient_mul_right hd] at hle

end Quotients

/-- The place of the last of the 53 bits that are kept of a quotient. -/
def bitScale (num den : Nat) : Nat := (num / den).log2 - 52

/-- The quotient rounded to 53 significant bits, however large it is. -/
def roundedUnits (num den : Nat) : Nat :=
  roundQuotient num (den * 2 ^ bitScale num den) * 2 ^ bitScale num den

section Units

variable {a b c d num den : Nat}

theorem lt_two_pow_bitScale (hd : 0 < den) : num < 2 ^ 53 * (den * 2 ^ bitScale num den) := by
  have hlt : num / den < 2 ^ ((num / den).log2 + 1) := Nat.lt_log2_self
  have hle : (num / den).log2 + 1 ≤ 53 + bitScale num den := by
    unfold bitScale
    omega
  have hpow : num / den < 2 ^ 53 * 2 ^ bitScale num den := by
    rw [← Nat.pow_add]
    exact Nat.lt_of_lt_of_le hlt (Nat.pow_le_pow_right (by decide) hle)
  rw [Nat.div_lt_iff_lt_mul hd] at hpow
  rwa [Nat.mul_comm den, ← Nat.mul_assoc]

theorem bitScale_le {k : Nat} (hd : 0 < den) (h : num < 2 ^ (53 + k) * den) :
    bitScale num den ≤ k := by
  unfold bitScale
  rcases Nat.eq_zero_or_pos (num / den) with hz | hpos
  · simp [hz]
  · have hlt : num / den < 2 ^ (53 + k) := (Nat.div_lt_iff_lt_mul hd).mpr h
    have := (Nat.log2_lt (Nat.ne_of_gt hpos)).mpr hlt
    omega

theorem two_pow_bitScale_le (hs : bitScale num den ≠ 0) :
    2 ^ 52 * (den * 2 ^ bitScale num den) ≤ num := by
  have hlog : 52 + bitScale num den = (num / den).log2 := by
    unfold bitScale at hs ⊢
    omega
  have hne : num / den ≠ 0 := by
    intro h
    rw [h] at hlog
    simp at hlog
  have hle : 2 ^ (52 + bitScale num den) ≤ num / den := hlog ▸ Nat.log2_self_le hne
  have hd : 0 < den := by
    rcases Nat.eq_zero_or_pos den with h | h
    · simp [h] at hne
    · exact h
  rw [Nat.le_div_iff_mul_le hd, Nat.pow_add] at hle
  rwa [Nat.mul_comm den, ← Nat.mul_assoc]

theorem roundQuotient_bitScale_le (num : Nat) (hd : 0 < den) :
    roundQuotient num (den * 2 ^ bitScale num den) ≤ 2 ^ 53 :=
  roundQuotient_lt_of_lt (by positivity) (lt_two_pow_bitScale hd)

theorem le_roundQuotient_bitScale {num : Nat} (hd : 0 < den) (hs : bitScale num den ≠ 0) :
    2 ^ 52 ≤ roundQuotient num (den * 2 ^ bitScale num den) :=
  le_roundQuotient_of_le (by positivity) (two_pow_bitScale_le hs)

theorem bitScale_mul_left {k : Nat} (hk : 0 < k) :
    bitScale (k * num) (k * den) = bitScale num den := by
  unfold bitScale
  rw [Nat.mul_div_mul_left _ _ hk]

theorem roundedUnits_mul_left (num den : Nat) {k : Nat} (hk : 0 < k) :
    roundedUnits (k * num) (k * den) = roundedUnits num den := by
  unfold roundedUnits
  rw [bitScale_mul_left hk, Nat.mul_assoc, roundQuotient_mul_left _ _ hk]

@[simp] theorem roundedUnits_zero (den : Nat) : roundedUnits 0 den = 0 := by
  simp [roundedUnits, roundQuotient]

theorem bitScale_mono (h : a / d ≤ b / c) : bitScale a d ≤ bitScale b c := by
  unfold bitScale
  have := Nat.log_mono_right (b := 2) h
  rw [Nat.log2_eq_log_two, Nat.log2_eq_log_two]
  omega

theorem roundedUnits_le_roundedUnits (hd : 0 < d) (h : a ≤ b) :
    roundedUnits a d ≤ roundedUnits b d := by
  have hs : bitScale a d ≤ bitScale b d := bitScale_mono (Nat.div_le_div_right h)
  rcases Nat.eq_or_lt_of_le hs with heq | hlt
  · unfold roundedUnits
    rw [heq]
    exact Nat.mul_le_mul_right _ (roundQuotient_le_roundQuotient _ h)
  · calc roundedUnits a d
        ≤ 2 ^ 53 * 2 ^ bitScale a d := Nat.mul_le_mul_right _ (roundQuotient_bitScale_le a hd)
      _ = 2 ^ 52 * 2 ^ (bitScale a d + 1) := by ring
      _ ≤ 2 ^ 52 * 2 ^ bitScale b d := Nat.mul_le_mul_left _ (Nat.pow_le_pow_right (by decide) hlt)
      _ ≤ roundedUnits b d :=
        Nat.mul_le_mul_right _ (le_roundQuotient_bitScale hd (Nat.ne_zero_of_lt hlt))

/-- Rounding keeps the order of quotients. -/
theorem roundedUnits_mono (hb : 0 < b) (hd : 0 < d) (h : a * d ≤ c * b) :
    roundedUnits a b ≤ roundedUnits c d := by
  rw [← roundedUnits_mul_left a b hd, ← roundedUnits_mul_left c d hb, Nat.mul_comm b d,
    Nat.mul_comm d a, Nat.mul_comm b c]
  exact roundedUnits_le_roundedUnits (Nat.mul_pos hd hb) h

/-- The rounding error is at most half a unit in the last place. -/
theorem roundedUnits_near (num : Nat) (hd : 0 < den) :
    2 * (roundedUnits num den * den) ≤ 2 * num + den * 2 ^ bitScale num den ∧
      2 * num ≤ 2 * (roundedUnits num den * den) + den * 2 ^ bitScale num den := by
  have h := roundQuotient_near num (d := den * 2 ^ bitScale num den) (by positivity)
  have hmul : roundedUnits num den * den =
      roundQuotient num (den * 2 ^ bitScale num den) * (den * 2 ^ bitScale num den) := by
    unfold roundedUnits
    ring
  rwa [hmul]

/-- The rounding error is at most one part in `2 ^ 53`, or half a unit. -/
theorem roundedUnits_close (num : Nat) (hd : 0 < den) :
    2 ^ 53 * (roundedUnits num den * den) ≤ 2 ^ 53 * num + (num + 2 ^ 52 * den) ∧
      2 ^ 53 * num ≤ 2 ^ 53 * (roundedUnits num den * den) + (num + 2 ^ 52 * den) := by
  obtain ⟨h₁, h₂⟩ := roundedUnits_near num hd
  have hgrid : 2 ^ 52 * (den * 2 ^ bitScale num den) ≤ num + 2 ^ 52 * den := by
    by_cases hs : bitScale num den = 0
    · rw [hs]
      omega
    · have := two_pow_bitScale_le hs
      omega
  omega

end Units

namespace Magnitude

variable {m m' : Magnitude} {num den : Nat}

theorem unitsOfOne_eq : unitsOfOne = 2 ^ 1074 := by decide +kernel

theorem unitsOfOne_eq_mul {j k : Nat} (h : j + k = 1074) : unitsOfOne = 2 ^ j * 2 ^ k := by
  rw [unitsOfOne_eq, ← h, Nat.pow_add]

theorem unitsOfOne_pos : 0 < unitsOfOne := by
  obtain ⟨k, hk⟩ : ∃ k, unitsOfOne = 2 ^ k := ⟨_, unitsOfOne_eq⟩
  exact hk ▸ Nat.two_pow_pos k

theorem bitScale_units (m : Magnitude) {d : Nat} (hd : 0 < d) :
    bitScale (m.units * d) d = m.scale := by
  obtain ⟨mantissa, scale, hlt, -, hnormal⟩ := m
  simp only [Nat.pow_eq] at hlt hnormal
  simp only [units, Nat.pow_eq, bitScale]
  rw [Nat.mul_div_cancel _ hd]
  rcases hnormal with rfl | hle
  · rcases Nat.eq_zero_or_pos mantissa with rfl | hpos
    · simp
    · have := (Nat.log2_lt (Nat.ne_of_gt hpos)).mpr hlt
      simp
      omega
  · have hne : mantissa * 2 ^ scale ≠ 0 :=
      Nat.ne_of_gt (Nat.mul_pos (Nat.lt_of_lt_of_le (by decide) hle) (by positivity))
    have hlog : (mantissa * 2 ^ scale).log2 = 52 + scale := by
      rw [Nat.log2_eq_iff hne, Nat.pow_add, show 52 + scale + 1 = 53 + scale by omega, Nat.pow_add]
      exact ⟨Nat.mul_le_mul_right _ hle, Nat.mul_lt_mul_of_pos_right hlt (by positivity)⟩
    omega

/-- What is representable is not changed by rounding. -/
@[simp] theorem roundedUnits_units (m : Magnitude) {d : Nat} (hd : 0 < d) :
    roundedUnits (m.units * d) d = m.units := by
  unfold roundedUnits
  rw [bitScale_units m hd, units, Nat.pow_eq,
    show m.mantissa * 2 ^ m.scale * d = m.mantissa * (d * 2 ^ m.scale) by ring,
    roundQuotient_mul_right (by positivity)]

theorem units_injective : Function.Injective units := by
  intro m m' h
  have hs : m.scale = m'.scale := by
    rw [← bitScale_units m Nat.one_pos, h, bitScale_units m' Nat.one_pos]
  have hm : m.mantissa = m'.mantissa := by
    simp only [units, hs] at h
    exact Nat.eq_of_mul_eq_mul_right (Nat.two_pow_pos _) h
  cases m
  cases m'
  simp_all

/-- No magnitude has as many units as this. -/
def unitsLimit : Nat := Nat.pow 2 2098

theorem unitsLimit_eq : unitsLimit = 2 ^ 2098 := by decide +kernel

theorem units_lt (m : Magnitude) : m.units < unitsLimit := by
  obtain ⟨mantissa, scale, hlt, hscale, -⟩ := m
  have hle : 2 ^ (53 + scale) ≤ unitsLimit := by
    rw [unitsLimit_eq, Nat.pow_le_pow_iff_right Nat.one_lt_two]
    omega
  rw [Nat.pow_add] at hle
  exact Nat.lt_of_lt_of_le (Nat.mul_lt_mul_of_pos_right hlt (Nat.two_pow_pos scale)) hle

/-- A canonical mantissa and scale below the limit are those of a magnitude. -/
theorem exists_of_units_lt {mantissa scale : Nat} (hlt : mantissa < 2 ^ 53)
    (hnormal : scale = 0 ∨ 2 ^ 52 ≤ mantissa) (hu : mantissa * 2 ^ scale < unitsLimit) :
    ∃ m : Magnitude, m.mantissa = mantissa ∧ m.scale = scale := by
  have hscale : scale ≤ 2045 := by
    rcases hnormal with rfl | hge
    · omega
    · have hpow : 2 ^ (52 + scale) < 2 ^ 2098 := by
        rw [Nat.pow_add, ← unitsLimit_eq]
        exact Nat.lt_of_le_of_lt (Nat.mul_le_mul_right _ hge) hu
      have := (Nat.pow_lt_pow_iff_right Nat.one_lt_two).mp hpow
      omega
  exact ⟨⟨mantissa, scale, hlt, hscale, hnormal⟩, rfl, rfl⟩

theorem make?_eq_some_iff {mantissa scale : Nat} :
    make? mantissa scale = some m ↔ m.mantissa = mantissa ∧ m.scale = scale := by
  unfold make?
  split
  next h =>
    rw [Option.some.injEq]
    constructor
    · rintro rfl
      exact ⟨rfl, rfl⟩
    · rintro ⟨rfl, rfl⟩
      rfl
  next h =>
    simp only [reduceCtorEq, false_iff]
    rintro ⟨rfl, rfl⟩
    exact h m.canonical

/-- A mantissa and a scale in canonical form are those of the magnitude with as many units. -/
theorem make?_eq_some_of_units {mantissa scale : Nat} (hlt : mantissa < 2 ^ 53)
    (hnormal : scale = 0 ∨ 2 ^ 52 ≤ mantissa) (hu : mantissa * 2 ^ scale = m.units) :
    make? mantissa scale = some m := by
  obtain ⟨m', rfl, rfl⟩ := exists_of_units_lt hlt hnormal (hu ▸ units_lt m)
  have heq : m' = m := units_injective hu
  rw [make?_eq_some_iff, heq]
  exact ⟨rfl, rfl⟩

/-- The magnitude that is found has as many units as the rounded quotient; none is found only if no
magnitude has. -/
theorem ofUnits?_eq_some_iff (hd : 0 < den) :
    ofUnits? num den = some m ↔ roundedUnits num den = m.units := by
  have hle := roundQuotient_bitScale_le num hd
  have hge : bitScale num den ≠ 0 → _ := le_roundQuotient_bitScale hd
  unfold ofUnits? roundedUnits
  simp only [Nat.pow_eq, ← bitScale.eq_1]
  generalize bitScale num den = scale at *
  generalize roundQuotient num (den * 2 ^ scale) = mantissa at *
  split
  case isTrue hlt =>
    constructor
    · intro h
      obtain ⟨rfl, rfl⟩ := make?_eq_some_iff.mp h
      rfl
    · exact make?_eq_some_of_units hlt (or_iff_not_imp_left.mpr hge)
  case isFalse hlt =>
    have hfull : mantissa * 2 ^ scale = 2 ^ 52 * 2 ^ (scale + 1) := by
      rw [Nat.le_antisymm hle (Nat.le_of_not_lt hlt)]
      ring
    rw [hfull]
    constructor
    · intro h
      obtain ⟨hm, hs⟩ := make?_eq_some_iff.mp h
      rw [units, hm, hs, Nat.pow_eq]
    · exact make?_eq_some_of_units (by decide) (.inr (Nat.le_refl _))

theorem units_of_ofUnits? (hd : 0 < den) (h : ofUnits? num den = some m) :
    m.units = roundedUnits num den :=
  ((ofUnits?_eq_some_iff hd).mp h).symm

/-- Rounding depends on the value of the quotient alone. -/
theorem ofUnits?_congr {a b c d : Nat} (hb : 0 < b) (hd : 0 < d) (h : a * d = c * b) :
    ofUnits? a b = ofUnits? c d := by
  ext m
  rw [ofUnits?_eq_some_iff hb, ofUnits?_eq_some_iff hd,
    Nat.le_antisymm (roundedUnits_mono hb hd (Nat.le_of_eq h))
      (roundedUnits_mono hd hb (Nat.le_of_eq h.symm))]

@[simp] theorem ofUnits?_units (m : Magnitude) (hd : 0 < den) :
    ofUnits? (m.units * den) den = some m := by
  rw [ofUnits?_eq_some_iff hd, roundedUnits_units m hd]

/-- There is a magnitude for every rounded quotient below the limit. -/
theorem exists_units_eq (hd : 0 < den) (h : roundedUnits num den < unitsLimit) :
    ∃ m : Magnitude, m.units = roundedUnits num den := by
  have hle := roundQuotient_bitScale_le num hd
  have hge : bitScale num den ≠ 0 → _ := le_roundQuotient_bitScale hd
  unfold roundedUnits at h ⊢
  generalize bitScale num den = scale at *
  generalize roundQuotient num (den * 2 ^ scale) = mantissa at *
  rcases Nat.lt_or_eq_of_le hle with hlt | rfl
  · obtain ⟨m, rfl, rfl⟩ := exists_of_units_lt hlt (or_iff_not_imp_left.mpr hge) h
    exact ⟨m, rfl⟩
  · have hfull : 2 ^ 53 * 2 ^ scale = 2 ^ 52 * 2 ^ (scale + 1) := by ring
    rw [hfull] at h ⊢
    obtain ⟨m, hm, hs⟩ := exists_of_units_lt (by decide) (.inr (Nat.le_refl _)) h
    exact ⟨m, by rw [units, hm, hs, Nat.pow_eq]⟩

/-- A number of up to 53 bits, followed by zeros, is representable. -/
theorem exists_units_mul {n k : Nat} (hn : n < 2 ^ 53) (hk : k ≤ 2045) :
    ∃ m : Magnitude, m.units = n * 2 ^ k := by
  have hlt : n * 2 ^ k < 2 ^ (53 + k) := by
    rw [Nat.pow_add]
    exact Nat.mul_lt_mul_of_pos_right hn (Nat.two_pow_pos k)
  have hscale : bitScale (n * 2 ^ k) 1 ≤ k := bitScale_le Nat.one_pos (by rwa [Nat.mul_one])
  have heq : roundedUnits (n * 2 ^ k) 1 = n * 2 ^ k := by
    unfold roundedUnits
    obtain ⟨i, hi⟩ := Nat.exists_eq_add_of_le' hscale
    generalize bitScale (n * 2 ^ k) 1 = scale at *
    rw [hi, Nat.pow_add, Nat.one_mul, ← Nat.mul_assoc, roundQuotient_mul_right (Nat.two_pow_pos _)]
  have hlimit : 2 ^ (53 + k) ≤ unitsLimit := by
    rw [unitsLimit_eq, Nat.pow_le_pow_iff_right Nat.one_lt_two]
    omega
  have hbelow : roundedUnits (n * 2 ^ k) 1 < unitsLimit := by
    rw [heq]
    exact Nat.lt_of_lt_of_le hlt hlimit
  obtain ⟨m, hm⟩ := exists_units_eq Nat.one_pos hbelow
  exact ⟨m, hm.trans heq⟩

/-- What is at most a magnitude is rounded to a magnitude that is no larger. -/
theorem exists_ofUnits? (hd : 0 < den) (h : num ≤ m.units * den) :
    ∃ m', ofUnits? num den = some m' ∧ m'.units ≤ m.units := by
  have hle : roundedUnits num den ≤ m.units := by
    rw [← roundedUnits_units m hd]
    exact roundedUnits_le_roundedUnits hd h
  obtain ⟨m', hm'⟩ := exists_units_eq hd (Nat.lt_of_le_of_lt hle (units_lt m))
  exact ⟨m', (ofUnits?_eq_some_iff hd).mpr hm'.symm, hm' ▸ hle⟩

/-- No magnitude is nearer to the quotient, counted in units. -/
def IsNearest (m : Magnitude) (num den : Nat) : Prop :=
  ∀ m' : Magnitude, Nat.dist (m.units * den) num ≤ Nat.dist (m'.units * den) num

/-- Rounding finds the nearest magnitude. -/
theorem isNearest_of_ofUnits? (hd : 0 < den) (h : ofUnits? num den = some m) :
    m.IsNearest num den := by
  intro m'
  have hgrid : 0 < den * 2 ^ bitScale num den := by positivity
  have hm : m.units * den =
      roundQuotient num (den * 2 ^ bitScale num den) * (den * 2 ^ bitScale num den) := by
    rw [units_of_ofUnits? hd h, roundedUnits]
    ring
  rw [hm]
  by_cases hs : bitScale num den ≤ m'.scale
  · -- the other magnitude lies on the same grid
    have hm' : m'.units * den =
        m'.mantissa * 2 ^ (m'.scale - bitScale num den) * (den * 2 ^ bitScale num den) := by
      rw [units, Nat.pow_eq]
      conv_lhs => rw [← Nat.sub_add_cancel hs, Nat.pow_add]
      ring
    rw [hm']
    exact roundQuotient_nearest _ _ hgrid
  · -- the other magnitude lies below the least one with all bits on this grid
    have hnear := roundQuotient_nearest num (2 ^ 52) hgrid
    have hle : 2 ^ 52 * (den * 2 ^ bitScale num den) ≤ num := two_pow_bitScale_le (by omega)
    have hm' : m'.units * den ≤ 2 ^ 52 * (den * 2 ^ bitScale num den) := by
      have hlt := m'.canonical.1
      have hpow : 2 ^ (m'.scale + 1) ≤ 2 ^ bitScale num den :=
        Nat.pow_le_pow_right Nat.two_pos (by omega)
      calc m'.units * den
          ≤ 2 ^ 53 * 2 ^ m'.scale * den := by
            rw [units, Nat.pow_eq]
            exact Nat.mul_le_mul_right _ (Nat.mul_le_mul_right _ (Nat.le_of_lt hlt))
        _ = 2 ^ 52 * (den * 2 ^ (m'.scale + 1)) := by ring
        _ ≤ 2 ^ 52 * (den * 2 ^ bitScale num den) := by gcongr
    refine Nat.le_trans hnear ?_
    rw [Nat.dist_eq_sub_of_le hle, Nat.dist_eq_sub_of_le (Nat.le_trans hm' hle)]
    exact Nat.sub_le_sub_left hm' num

end Magnitude

end RowReplay
