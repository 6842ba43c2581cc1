import Mathlib.Tactic.Linarith
import RowReplay.Config.Validation
import RowReplay.Proofs.Number.Rounding

/-!
Where the refresh point of a policy lies. It is computed with numbers of seconds, so it can miss the
time to live that it is meant to equal, and the product can be too long for a span.
-/
namespace RowReplay

open Magnitude

namespace Binary64

theorem units_one : Magnitude.one.units = unitsOfOne := by
  obtain ⟨k, hk, hscale⟩ : ∃ k, 52 + k = 1074 ∧ Magnitude.one.scale = k := ⟨1022, rfl, rfl⟩
  have hmantissa : Magnitude.one.mantissa = 2 ^ 52 := rfl
  rw [units, hmantissa, hscale, Nat.pow_eq, unitsOfOne_eq_mul hk]

theorem units_clampToUnit_le (x : Binary64) : x.clampToUnit.units ≤ unitsOfOne := by
  unfold clampToUnit
  split
  · exact Nat.zero_le _
  · split
    · assumption
    · exact units_one.le
  · exact units_one.le

/-- At least one, or not finite. -/
def IsWhole : Binary64 → Prop
  | .finite negative m => negative = false ∧ unitsOfOne ≤ m.units
  | _ => True

theorem IsWhole.clampToUnit {x : Binary64} (h : x.IsWhole) : x.clampToUnit = .one := by
  cases x with
  | nan => rfl
  | infinite => rfl
  | finite negative m =>
    obtain ⟨rfl, hle⟩ := h
    simp only [Binary64.clampToUnit]
    split
    case isTrue hge => exact units_injective ((Nat.le_antisymm hge hle).trans units_one.symm)
    case isFalse => rfl

end Binary64

namespace Magnitude

theorem ofNat?_eq_some_iff {n : Nat} {m : Magnitude} :
    ofNat? n = some m ↔ roundedUnits (n * unitsOfOne) 1 = m.units :=
  ofUnits?_eq_some_iff Nat.one_pos

/-- Numbers of up to 53 bits are not changed by rounding. -/
theorem roundedUnits_nat {n : Nat} (hn : n < 2 ^ 53) :
    roundedUnits (n * unitsOfOne) 1 = n * unitsOfOne := by
  obtain ⟨m, hm⟩ := exists_units_mul hn (k := 1074) (by decide)
  rw [unitsOfOne_eq, ← hm]
  simpa using roundedUnits_units m Nat.one_pos

end Magnitude

namespace Span

variable {s after : Span} {m secs factor : Magnitude}

theorem le_iff {a b : Span} : a ≤ b ↔ a.nanos ≤ b.nanos := Iff.rfl

theorem lt_iff {a b : Span} : a < b ↔ a.nanos < b.nanos := Iff.rfl

theorem eq_iff {a b : Span} : a = b ↔ a.nanos = b.nanos := by
  cases a
  cases b
  simp

theorem nanosPerSecond_pos : 0 < nanosPerSecond := by decide

theorem subsecond_lt (s : Span) : s.subsecond < nanosPerSecond := Nat.mod_lt _ nanosPerSecond_pos

theorem nanos_eq (s : Span) : s.nanos = s.seconds * nanosPerSecond + s.subsecond :=
  (Nat.div_add_mod' ..).symm

theorem nanos_mul_unitsOfOne (s : Span) : s.nanos * unitsOfOne =
    s.seconds * unitsOfOne * nanosPerSecond + s.subsecond * unitsOfOne := by
  rw [nanos_eq, Nat.add_mul, Nat.mul_right_comm]

/-- The part of a second as it is computed. -/
def partUnits (s : Span) : Nat := roundedUnits (s.subsecond * unitsOfOne) nanosPerSecond

/-- The seconds as they are computed: the whole ones and the part of one are each rounded, and then
their sum. -/
def secondsUnits (s : Span) : Nat :=
  roundedUnits (roundedUnits (s.seconds * unitsOfOne) 1 + s.partUnits) 1

theorem units_secondsMagnitude? (h : s.secondsMagnitude? = some secs) :
    secs.units = s.secondsUnits := by
  simp only [secondsMagnitude?, Option.bind_eq_bind, Option.bind_eq_some_iff] at h
  obtain ⟨whole, hwhole, part, hpart, second, hsecond, quotient, hquotient, hsum⟩ := h
  rw [ofNat?_eq_some_iff] at hwhole hpart hsecond
  rw [roundedUnits_nat (Nat.lt_trans s.subsecond_lt (by decide))] at hpart
  rw [roundedUnits_nat (by decide)] at hsecond
  have hunits : quotient.units = s.partUnits := by
    have hpos : 0 < second.units := hsecond ▸ Nat.mul_pos (by decide) unitsOfOne_pos
    rw [units_of_ofUnits? hpos hquotient, ← hpart, ← hsecond, partUnits,
      Nat.mul_comm nanosPerSecond, Nat.mul_comm (s.subsecond * unitsOfOne),
      roundedUnits_mul_left _ _ unitsOfOne_pos]
  rw [secondsUnits, hwhole, ← hunits]
  exact units_of_ofUnits? Nat.one_pos hsum

/-- The span after it has gone through seconds and back. -/
def throughSeconds (s : Span) : Span :=
  ⟨roundQuotient (s.secondsUnits * nanosPerSecond) unitsOfOne⟩

/-- A fraction of a span is no longer than the span that has gone through seconds, and the whole is
that span. -/
theorem scaled?_eq_some (hf : factor.units ≤ unitsOfOne) (h : s.scaled? factor = some after) :
    after ≤ s.throughSeconds ∧ (factor = .one → after = s.throughSeconds) := by
  simp only [scaled?, Option.bind_eq_bind, Option.bind_eq_some_iff] at h
  obtain ⟨secs, hsecs, product, hproduct, hafter⟩ := h
  have hunits := units_secondsMagnitude? hsecs
  simp only [ofSecondsMagnitude?, Option.ite_none_right_eq_some, Option.some.injEq] at hafter
  obtain ⟨-, rfl⟩ := hafter
  have hle : factor.units * secs.units ≤ secs.units * unitsOfOne := by
    rw [Nat.mul_comm secs.units]
    exact Nat.mul_le_mul_right _ hf
  constructor
  · obtain ⟨_, heq, hsmall⟩ := exists_ofUnits? unitsOfOne_pos hle
    obtain rfl := Option.some.inj (heq.symm.trans hproduct)
    rw [hunits] at hsmall
    have hnanos := Nat.mul_le_mul_right nanosPerSecond hsmall
    simp only [le_iff, throughSeconds]
    exact roundQuotient_le_roundQuotient unitsOfOne hnanos
  · rintro rfl
    rw [mul?, Binary64.units_one, Nat.mul_comm, ofUnits?_units _ unitsOfOne_pos] at hproduct
    obtain rfl := Option.some.inj hproduct
    rw [throughSeconds, hunits]

/-- The span is not changed by going through seconds: its whole seconds are few enough to leave room
for nanoseconds, or there are no others and they are representable. -/
def IsExactInSeconds (s : Span) : Prop :=
  s.seconds < 2 ^ 23 ∨ s.subsecond = 0 ∧ ∃ m : Magnitude, m.units = s.seconds * unitsOfOne

/-- The part of a second is rounded by at most half of `2 ^ k` units. -/
theorem partUnits_near (s : Span) {k : Nat} (hk : 53 + k = 1074) :
    2 * (s.partUnits * nanosPerSecond) ≤ 2 * (s.subsecond * unitsOfOne) + nanosPerSecond * 2 ^ k ∧
      2 * (s.subsecond * unitsOfOne) ≤
        2 * (s.partUnits * nanosPerSecond) + nanosPerSecond * 2 ^ k := by
  have hscale : bitScale (s.subsecond * unitsOfOne) nanosPerSecond ≤ k := by
    apply bitScale_le nanosPerSecond_pos
    rw [Nat.pow_add, ← unitsOfOne_eq_mul hk, Nat.mul_comm unitsOfOne]
    exact Nat.mul_lt_mul_of_pos_right s.subsecond_lt unitsOfOne_pos
  have herror := Nat.mul_le_mul_left nanosPerSecond (Nat.pow_le_pow_right Nat.two_pos hscale)
  obtain ⟨h₁, h₂⟩ := roundedUnits_near (s.subsecond * unitsOfOne) nanosPerSecond_pos
  exact ⟨Nat.le_trans h₁ (Nat.add_le_add_left herror _),
    Nat.le_trans h₂ (Nat.add_le_add_left herror _)⟩

/-- Together with the whole seconds of a short span it is rounded once more. -/
theorem secondsUnits_near {k : Nat} (hk : 53 + k = 1074) (h : s.seconds < 2 ^ 23) :
    2 * s.secondsUnits ≤ 2 * (s.seconds * unitsOfOne + s.partUnits) + 2 ^ 23 * 2 ^ k ∧
      2 * (s.seconds * unitsOfOne + s.partUnits) ≤ 2 * s.secondsUnits + 2 ^ 23 * 2 ^ k := by
  have hone := unitsOfOne_eq_mul hk
  have hpos := Nat.two_pow_pos k
  have hscale : bitScale (s.seconds * unitsOfOne + s.partUnits) 1 ≤ 23 + k := by
    apply bitScale_le Nat.one_pos
    have hpart := (s.partUnits_near hk).1
    have hseconds := Nat.mul_le_mul_right unitsOfOne (Nat.le_sub_one_of_lt h)
    have hsubsecond := Nat.mul_le_mul_right unitsOfOne (Nat.le_sub_one_of_lt s.subsecond_lt)
    rw [← Nat.add_assoc, Nat.pow_add]
    simp only [nanosPerSecond] at *
    omega
  have herror := Nat.pow_le_pow_right Nat.two_pos hscale
  rw [Nat.pow_add] at herror
  have hsum : s.secondsUnits = roundedUnits (s.seconds * unitsOfOne + s.partUnits) 1 := by
    rw [secondsUnits, roundedUnits_nat (by omega)]
  obtain ⟨h₁, h₂⟩ := roundedUnits_near (s.seconds * unitsOfOne + s.partUnits) Nat.one_pos
  rw [← hsum] at h₁ h₂
  constructor <;> omega

/-- The rounding errors of a short span make up less than half a nanosecond. -/
theorem throughSeconds_of_short (h : s.seconds < 2 ^ 23) : s.throughSeconds = s := by
  obtain ⟨k, hk⟩ : ∃ k, 53 + k = 1074 := ⟨1021, rfl⟩
  have hone := unitsOfOne_eq_mul hk
  have hpos := Nat.two_pow_pos k
  obtain ⟨hpart₁, hpart₂⟩ := s.partUnits_near hk
  obtain ⟨hsum₁, hsum₂⟩ := secondsUnits_near hk h
  have hnanos := s.nanos_mul_unitsOfOne
  have hnear : roundQuotient (s.secondsUnits * nanosPerSecond) unitsOfOne = s.nanos := by
    apply roundQuotient_eq_of_near <;> rw [hnanos] <;> simp only [nanosPerSecond] at * <;> omega
  simp only [eq_iff, throughSeconds]
  exact hnear

theorem IsExactInSeconds.throughSeconds (h : s.IsExactInSeconds) : s.throughSeconds = s := by
  rcases h with hshort | ⟨hwhole, m, hm⟩
  · exact throughSeconds_of_short hshort
  · have hsecs : s.secondsUnits = s.seconds * unitsOfOne := by
      have hfix := roundedUnits_units m Nat.one_pos
      rw [Nat.mul_one, hm] at hfix
      rw [secondsUnits, partUnits, hwhole, Nat.zero_mul, roundedUnits_zero, Nat.add_zero, hfix,
        hfix]
    rw [eq_iff, Span.throughSeconds, hsecs, Nat.mul_right_comm,
      roundQuotient_mul_right unitsOfOne_pos, nanos_eq s, hwhole, Nat.add_zero]

/-- Going through seconds changes a span by at most one part in `2 ^ 51` and a nanosecond. -/
theorem throughSeconds_close (s : Span) :
    s.throughSeconds.nanos ≤ s.nanos + s.nanos / 2 ^ 51 + 1 ∧
      s.nanos ≤ s.throughSeconds.nanos + s.nanos / 2 ^ 51 + 1 := by
  have hbig : 2 ^ 60 ≤ unitsOfOne := by
    obtain ⟨k, hk⟩ : ∃ k, 60 + k = 1074 := ⟨1014, rfl⟩
    rw [unitsOfOne_eq_mul hk]
    exact Nat.le_mul_of_pos_right _ (Nat.two_pow_pos k)
  have hpos := unitsOfOne_pos
  obtain ⟨hwhole₁, hwhole₂⟩ := roundedUnits_close (s.seconds * unitsOfOne) Nat.one_pos
  obtain ⟨hpart₁, hpart₂⟩ :=
    roundedUnits_close (s.subsecond * unitsOfOne) nanosPerSecond_pos
  obtain ⟨hsum₁, hsum₂⟩ :=
    roundedUnits_close (roundedUnits (s.seconds * unitsOfOne) 1 + s.partUnits) Nat.one_pos
  obtain ⟨hspan₁, hspan₂⟩ := roundQuotient_near (s.secondsUnits * nanosPerSecond) hpos
  have hnanos := s.nanos_mul_unitsOfOne
  have hshare : s.nanos * unitsOfOne < 2 ^ 51 * (s.nanos / 2 ^ 51 * unitsOfOne + unitsOfOne) := by
    rw [← Nat.succ_mul, ← Nat.mul_assoc]
    exact Nat.mul_lt_mul_of_pos_right (Nat.lt_mul_div_succ _ (by decide)) hpos
  rw [← secondsUnits] at hsum₁ hsum₂
  rw [← partUnits] at hpart₁ hpart₂
  simp only [throughSeconds]
  generalize roundQuotient (s.secondsUnits * nanosPerSecond) unitsOfOne = after at *
  constructor
  · by_contra! hlt
    have hmul := Nat.mul_le_mul_right unitsOfOne (Nat.succ_le_of_lt hlt)
    simp only [Nat.succ_mul, Nat.add_mul] at hmul
    simp only [nanosPerSecond] at *
    omega
  · by_contra! hlt
    have hmul := Nat.mul_le_mul_right unitsOfOne (Nat.succ_le_of_lt hlt)
    simp only [Nat.succ_mul, Nat.add_mul] at hmul
    simp only [nanosPerSecond] at *
    omega

end Span

/-- An entry ages from fresh to stale to expired. -/
def Freshness.stage : Freshness → Nat
  | .fresh => 0
  | .refreshAhead => 1
  | .expired => 2

namespace FreshnessPolicy

variable {p : FreshnessPolicy} {ttl age : Span} {refreshAhead : Binary64}

theorem classify_eq_refreshAhead_iff (p : FreshnessPolicy) (age : Span) :
    p.classify age = .refreshAhead ↔ p.refreshAfter < age ∧ age ≤ p.ttl := by
  unfold classify
  simp only [Span.lt_iff, Span.le_iff]
  split
  · simp only [reduceCtorEq, false_iff]
    omega
  · split
    · simp only [true_iff]
      omega
    · simp only [reduceCtorEq, false_iff]
      omega

theorem stage_classify_mono (p : FreshnessPolicy) {a b : Span} (h : a ≤ b) :
    (p.classify a).stage ≤ (p.classify b).stage := by
  rw [Span.le_iff] at h
  unfold classify
  simp only [Span.lt_iff]
  repeat' split
  all_goals simp only [Freshness.stage]
  all_goals omega

theorem make?_eq_some (h : make? ttl refreshAhead = some p) :
    p.ttl = ttl ∧ p.refreshAfter ≤ ttl.throughSeconds ∧
      (refreshAhead.IsWhole → p.refreshAfter = ttl.throughSeconds) := by
  simp only [make?, Option.map_eq_some_iff] at h
  obtain ⟨after, hafter, rfl⟩ := h
  obtain ⟨hle, hwhole⟩ := Span.scaled?_eq_some refreshAhead.units_clampToUnit_le hafter
  exact ⟨rfl, hle, fun hx => hwhole hx.clampToUnit⟩

/-- An entry ages from fresh over stale to expired, and is stale from the refresh point to its time
to live. If the time to live goes through seconds unchanged, the refresh point is no later, and
there is no stale age if the refresh point is meant to be there. Otherwise the refresh point misses
it by one part in `2 ^ 51` and a nanosecond at most. -/
theorem refresh_point (h : make? ttl refreshAhead = some p) :
    (∀ age, p.classify age = .refreshAhead ↔ p.refreshAfter < age ∧ age ≤ ttl) ∧
      (∀ a b, a ≤ b → (p.classify a).stage ≤ (p.classify b).stage) ∧
      (ttl.IsExactInSeconds →
        p.refreshAfter ≤ ttl ∧
          (refreshAhead.IsWhole → p.refreshAfter = ttl ∧ ∀ age, p.classify age ≠ .refreshAhead)) ∧
      p.refreshAfter.nanos ≤ ttl.nanos + ttl.nanos / 2 ^ 51 + 1 ∧
      (refreshAhead.IsWhole →
        ttl.nanos ≤ p.refreshAfter.nanos + ttl.nanos / 2 ^ 51 + 1) := by
  obtain ⟨hlimit, hle, hwhole⟩ := make?_eq_some h
  obtain ⟨hlate, hearly⟩ := ttl.throughSeconds_close
  have hstale : ∀ age, p.classify age = .refreshAhead ↔ p.refreshAfter < age ∧ age ≤ ttl := by
    intro age
    rw [classify_eq_refreshAhead_iff, hlimit]
  refine ⟨hstale, fun _ _ => p.stage_classify_mono, ?_, Nat.le_trans hle hlate, ?_⟩
  · intro hexact
    rw [hexact.throughSeconds] at hle hwhole
    refine ⟨hle, fun hx => ⟨hwhole hx, fun age hage => ?_⟩⟩
    obtain ⟨hgt, hnot⟩ := (hstale age).mp hage
    rw [hwhole hx] at hgt
    exact absurd hgt (Nat.not_lt.mpr hnot)
  · intro hx
    rwa [hwhole hx]

/-- One nanosecond less than `2 ^ 23` seconds. -/
def longestShort : Span := .ofParts 8388607 999999999

theorem refresh_point_sample :
    make? longestShort .nan = some ⟨longestShort, longestShort⟩ ∧ longestShort.IsExactInSeconds ∧
      ∀ age, classify ⟨longestShort, longestShort⟩ age ≠ .refreshAhead := by
  have hmake : make? longestShort .nan = some ⟨longestShort, longestShort⟩ := by decide +kernel
  have hexact : longestShort.IsExactInSeconds := .inl (by decide +kernel)
  exact ⟨hmake, hexact, (((refresh_point hmake).2.2.1 hexact).2 trivial).2⟩

/-- Seconds that no magnitude has are rounded, down or up: then entries are refreshed early although
that is switched off, or the refresh point lies beyond the time to live. -/
theorem refreshed_although_whole :
    (∃ p, make? (.ofSeconds 9007199254740993) (.finite false .one) = some p ∧
      p.classify (.ofSeconds 9007199254740993) = .refreshAhead) ∧
    ∃ p, make? (.ofSeconds 9007199254740995) (.finite false .one) = some p ∧
      p.ttl < p.refreshAfter := by
  refine ⟨⟨⟨.ofSeconds 9007199254740993, .ofSeconds 9007199254740992⟩, ?_, ?_⟩,
    ⟨⟨.ofSeconds 9007199254740995, .ofSeconds 9007199254740996⟩, ?_, ?_⟩⟩ <;> decide +kernel

end FreshnessPolicy

end RowReplay
