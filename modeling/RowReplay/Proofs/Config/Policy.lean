import RowReplay.Config.Validation
import RowReplay.Proofs.Cache.RefreshPoint

/-!
Whether a cache can be made from settings that can be run. The seconds of the time to live are
rounded to 53 bits, and close to `2 ^ 64` they are rounded up to it.
-/
namespace RowReplay

open Magnitude

namespace Magnitude

/-- The least number of seconds that is too long for a span is representable. -/
theorem exists_units_size : ∃ m : Magnitude, m.units = 2 ^ 64 * unitsOfOne := by
  obtain ⟨k, hk⟩ : ∃ k, 52 + k = 1074 := ⟨1022, rfl⟩
  obtain ⟨m, hm⟩ := exists_units_mul (n := 2 ^ 52) (k := 64 + k) (by decide) (by omega)
  refine ⟨m, ?_⟩
  rw [hm, unitsOfOne_eq_mul hk]
  ring

/-- Up to here numbers of seconds are rounded to less than `2 ^ 64`. -/
theorem roundedUnits_nat_le {n : Nat} (h : n < 2 ^ 64 - 1024) :
    roundedUnits (n * unitsOfOne) 1 ≤ (2 ^ 64 - 2048) * unitsOfOne := by
  have hlast : roundedUnits ((2 ^ 64 - 1025) * unitsOfOne) 1 = (2 ^ 64 - 2048) * unitsOfOne := by
    decide +kernel
  rw [← hlast]
  apply roundedUnits_le_roundedUnits Nat.one_pos
  exact Nat.mul_le_mul_right _ (Nat.le_sub_one_of_lt h)

/-- From here they are rounded up to it. -/
theorem roundedUnits_nat_eq {n : Nat} (h : 2 ^ 64 - 1024 ≤ n) (hn : n < 2 ^ 64) :
    roundedUnits (n * unitsOfOne) 1 = 2 ^ 64 * unitsOfOne := by
  have hfirst : roundedUnits ((2 ^ 64 - 1024) * unitsOfOne) 1 = 2 ^ 64 * unitsOfOne := by
    decide +kernel
  have hlimit : roundedUnits (2 ^ 64 * unitsOfOne) 1 = 2 ^ 64 * unitsOfOne := by
    obtain ⟨m, hm⟩ := exists_units_size
    simpa [hm] using roundedUnits_units m Nat.one_pos
  apply Nat.le_antisymm
  · rw [← hlimit]
    exact roundedUnits_le_roundedUnits Nat.one_pos (Nat.mul_le_mul_right _ (Nat.le_of_lt hn))
  · rw [← hfirst]
    exact roundedUnits_le_roundedUnits Nat.one_pos (Nat.mul_le_mul_right _ h)

/-- Below one, 53 bits leave a gap that a product does not close. -/
theorem units_lt_of_lt_one {m secs product : Magnitude} (hm : m.units < unitsOfOne)
    (hsecs : secs.units = 2 ^ 64 * unitsOfOne) (h : m.mul? secs = some product) :
    product.units < 2 ^ 64 * unitsOfOne := by
  obtain ⟨k, hk⟩ : ∃ k, 53 + k = 1074 := ⟨1021, rfl⟩
  have hone := unitsOfOne_eq_mul hk
  have hscale : m.scale ≤ k := by
    by_contra! hlt
    have hfull : 2 ^ 52 ≤ m.mantissa := m.canonical.2.2.resolve_left (by omega)
    have hge := Nat.mul_le_mul hfull (Nat.pow_le_pow_right Nat.two_pos hlt)
    have htwice : 2 ^ 52 * 2 ^ (k + 1) = unitsOfOne := by rw [hone]; ring
    rw [htwice] at hge
    exact absurd hm (Nat.not_lt.mpr hge)
  have hgap : m.units ≤ (2 ^ 53 - 1) * 2 ^ k :=
    Nat.mul_le_mul (Nat.le_sub_one_of_lt m.canonical.1) (Nat.pow_le_pow_right Nat.two_pos hscale)
  obtain ⟨top, htop⟩ := exists_units_mul (n := 2 ^ 53 - 1) (k := k + 64) (by decide) (by omega)
  have hle : m.units * secs.units ≤ top.units * unitsOfOne := by
    rw [htop, hsecs, Nat.pow_add, ← Nat.mul_assoc, ← Nat.mul_assoc]
    exact Nat.mul_le_mul_right _ (Nat.mul_le_mul_right _ hgap)
  obtain ⟨_, heq, hsmaller⟩ := exists_ofUnits? unitsOfOne_pos hle
  obtain rfl := Option.some.inj (heq.symm.trans h)
  refine Nat.lt_of_le_of_lt hsmaller ?_
  have hpos := Nat.two_pow_pos k
  rw [htop, hone, Nat.pow_add]
  omega

end Magnitude

namespace Span

/-- Whole seconds are rounded once. -/
theorem secondsMagnitude?_ofSeconds (n : Nat) :
    (ofSeconds n).secondsMagnitude? = Magnitude.ofNat? n := by
  have hseconds : (ofSeconds n).seconds = n := Nat.mul_div_cancel n (by decide)
  have hsubsecond : (ofSeconds n).subsecond = 0 := Nat.mul_mod_left ..
  obtain ⟨second, hunits⟩ := exists_units_mul (n := nanosPerSecond) (k := 1074)
    (by decide) (by decide)
  rw [← unitsOfOne_eq] at hunits
  have hsecond : Magnitude.ofNat? nanosPerSecond = some second := by
    rw [ofNat?_eq_some_iff, roundedUnits_nat (by decide), hunits]
  have hzero : Magnitude.zero.units = 0 := by decide
  have hnone : Magnitude.ofNat? 0 = some .zero := by
    rw [ofNat?_eq_some_iff, Nat.zero_mul, roundedUnits_zero, hzero]
  have hquotient : Magnitude.zero.div? second = some .zero := by
    have hpos : 0 < second.units := hunits ▸ Nat.mul_pos (by decide) unitsOfOne_pos
    rw [div?, ofQuotient?, ofUnits?_eq_some_iff hpos, hzero, Nat.zero_mul, roundedUnits_zero]
  have hadd : ∀ whole : Magnitude, whole.add? .zero = some whole := by
    intro whole
    have hfix := ofUnits?_units whole Nat.one_pos
    rw [Nat.mul_one] at hfix
    rw [add?, hzero, Nat.add_zero, hfix]
  rw [secondsMagnitude?, hseconds, hsubsecond, hnone, hsecond]
  cases Magnitude.ofNat? n with
  | none => rfl
  | some whole =>
    rw [Option.bind_eq_bind, Option.bind_some, Option.bind_some, Option.bind_some, hquotient,
      Option.bind_some, hadd]

end Span

theorem Binary64.exists_of_isProperFraction {x : Binary64} (h : x.isProperFraction = true) :
    ∃ m, x = .finite false m ∧ m.units ≤ unitsOfOne := by
  unfold isProperFraction at h
  split at h
  next m =>
    rw [Bool.and_eq_true, decide_eq_true_eq, decide_eq_true_eq] at h
    exact ⟨m, rfl, h.2⟩
  next => contradiction

namespace Config

variable {c : Config}

/-- The seconds of a time to live and their product with a fraction are always found; what can be
missing is the span of as many seconds. -/
theorem exists_product (c : Config) :
    ∃ secs product : Magnitude,
      secs.units = roundedUnits (c.cache.ttlSeconds.toNat * unitsOfOne) 1 ∧
      c.cache.refreshAhead.clampToUnit.mul? secs = some product ∧
      (c.policy? = none ↔ UInt64.size * unitsOfOne ≤ product.units) := by
  obtain ⟨top, htop⟩ := exists_units_size
  have hle : c.cache.ttlSeconds.toNat * unitsOfOne ≤ top.units * 1 := by
    rw [Nat.mul_one, htop]
    exact Nat.mul_le_mul_right _ (Nat.le_of_lt c.cache.ttlSeconds.toNat_lt)
  obtain ⟨secs, hsecs, -⟩ := exists_ofUnits? Nat.one_pos hle
  have hmul : c.cache.refreshAhead.clampToUnit.units * secs.units ≤ secs.units * unitsOfOne := by
    rw [Nat.mul_comm secs.units]
    exact Nat.mul_le_mul_right _ c.cache.refreshAhead.units_clampToUnit_le
  obtain ⟨product, hproduct, -⟩ := exists_ofUnits? unitsOfOne_pos hmul
  refine ⟨secs, product, units_of_ofUnits? Nat.one_pos hsecs, hproduct, ?_⟩
  have hseconds : Magnitude.ofNat? c.cache.ttlSeconds.toNat = some secs := hsecs
  have hscaled : c.ttl.scaled? c.cache.refreshAhead.clampToUnit =
      Span.ofSecondsMagnitude? product := by
    simp only [Span.scaled?, ttl, Span.secondsMagnitude?_ofSeconds, hseconds, Option.bind_eq_bind,
      Option.bind_some]
    rw [mul?, hproduct, Option.bind_some]
  rw [policy?, FreshnessPolicy.make?, hscaled, Option.map_eq_none_iff, Span.ofSecondsMagnitude?,
    ite_eq_right_iff]
  simp

/-- Settings that can be run make a cache, unless entries are not to be refreshed before they expire
and live so long that the number of seconds nearest to that is `2 ^ 64`. -/
theorem no_policy_iff (h : c.IsValid) :
    c.policy? = none ↔
      c.cache.refreshAhead = .finite false .one ∧ 2 ^ 64 - 1024 ≤ c.cache.ttlSeconds.toNat := by
  obtain ⟨m, hm, hle⟩ : ∃ m, c.cache.refreshAhead = .finite false m ∧ m.units ≤ unitsOfOne :=
    Binary64.exists_of_isProperFraction ((isValid_iff c).mp h).2.1
  obtain ⟨secs, product, hsecs, hproduct, hnone⟩ := c.exists_product
  have hclamp : c.cache.refreshAhead.clampToUnit = m := by
    rw [hm, Binary64.clampToUnit, if_pos hle]
  have hmul : m.units * secs.units ≤ secs.units * unitsOfOne := by
    rw [Nat.mul_comm secs.units]
    exact Nat.mul_le_mul_right _ hle
  rw [hclamp] at hproduct
  obtain ⟨_, heq, hsmaller⟩ := exists_ofUnits? unitsOfOne_pos hmul
  obtain rfl := Option.some.inj (heq.symm.trans hproduct)
  have hpos := unitsOfOne_pos
  have hsize : UInt64.size = 2 ^ 64 := rfl
  rw [hnone, hsize, hm, Binary64.finite.injEq]
  constructor
  · intro hlong
    have hn : 2 ^ 64 - 1024 ≤ c.cache.ttlSeconds.toNat := by
      by_contra! hlt
      have hsecsLe := roundedUnits_nat_le hlt
      rw [← hsecs] at hsecsLe
      omega
    rw [roundedUnits_nat_eq hn c.cache.ttlSeconds.toNat_lt] at hsecs
    refine ⟨⟨rfl, ?_⟩, hn⟩
    by_contra hone
    have hlt : m.units < unitsOfOne :=
      Nat.lt_of_le_of_ne hle fun h => hone (units_injective (h.trans Binary64.units_one.symm))
    exact absurd (units_lt_of_lt_one hlt hsecs hproduct) (Nat.not_lt.mpr hlong)
  · rintro ⟨⟨-, rfl⟩, hn⟩
    rw [mul?, Binary64.units_one, Nat.mul_comm, ofUnits?_units _ unitsOfOne_pos] at hproduct
    obtain rfl := Option.some.inj hproduct
    rw [hsecs, roundedUnits_nat_eq hn c.cache.ttlSeconds.toNat_lt]

theorem no_policy_iff_sample : Config.default.IsValid ∧ Config.default.policy? ≠ none := by
  have hvalid : Config.default.IsValid := by decide +kernel
  refine ⟨hvalid, fun hnone => ?_⟩
  have hlong := ((no_policy_iff hvalid).mp hnone).2
  exact absurd hlong (by decide)

/-- The longest time to live, and no refreshing before it is over. -/
def longest : Config := { Config.default with cache := ⟨18446744073709551615, .finite false .one⟩ }

theorem longest_without_policy : longest.IsValid ∧ longest.policy? = none := by
  constructor <;> decide +kernel

end Config

end RowReplay
