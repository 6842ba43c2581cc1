import RowReplay.Proofs.Cache.Execution

/-!
The loads of one key form a chain. The slot holds its last load as long as that one is unfinished,
and each load begins only when all earlier ones have finished.
-/
namespace RowReplay.Cache

variable {κ ν : Type}

/-- All loads of the key before this one have finished. -/
def EldersFinished (c : Cache κ ν) (k : κ) (g : Nat) : Prop :=
  ∀ j, j < g → c.keyOf j = some k → c.Finished j

variable [DecidableEq κ]

structure Chained (c : Cache κ ν) : Prop where
  /-- The slot holds the last load of its key, and that load is unfinished. -/
  slot : ∀ k g b, c.pending.get? k = some ⟨g, b⟩ →
    c.keyOf g = some k ∧ ¬ c.Finished g ∧ ∀ j, c.keyOf j = some k → j ≤ g
  /-- A key without a slot has no unfinished load. -/
  free : ∀ k, c.pending.get? k = none → ∀ j, c.keyOf j = some k → c.Finished j
  /-- An unfinished elder of a load comes no later than the load's predecessor. -/
  behind : ∀ k g p, c.keyOf g = some k → c.predecessorOf g = some p →
    ∀ j, j < g → c.keyOf j = some k →
      c.Finished j ∨ ∃ q, p = some q ∧ c.keyOf q = some k ∧ j ≤ q
  called : ∀ k g, c.keyOf g = some k → c.Called g → c.EldersFinished k g
  older : ∀ g p, c.predecessorOf g = some (some p) → p < g

theorem Chained.empty (policy : FreshnessPolicy) : (empty policy : Cache κ ν).Chained := by
  constructor <;> simp [Cache.empty, keyOf, predecessorOf]

/-- Only slots, keys, predecessors and phases matter. -/
theorem Chained.congr {c d : Cache κ ν} (h : c.Chained) (hp : d.pending = c.pending)
    (hl : d.loads = c.loads) : d.Chained := by
  obtain ⟨policy, entries, pending, counters, loads⟩ := d
  obtain rfl : pending = c.pending := hp
  obtain rfl : loads = c.loads := hl
  exact ⟨h.slot, h.free, h.behind, h.called, h.older⟩

/-- A load whose predecessor has finished is the first of its key that has not. -/
theorem Chained.elders_of_ready {c : Cache κ ν} (h : c.Chained) {g : Nat} {load : Load κ ν}
    (hl : c.loads[g]? = some load) (hr : c.isReady load = true) :
    c.EldersFinished load.key g := by
  obtain ⟨hk, hp, -⟩ := lookups hl
  intro j hj hkj
  rcases h.behind _ _ _ hk hp j hj hkj with hf | ⟨q, hq, hkq, hjq⟩
  · exact hf
  · have hfq := isReady_iff.mp hr q hq
    rcases Nat.eq_or_lt_of_le hjq with rfl | hlt
    · exact hfq
    · exact h.called _ _ hkq hfq.called j hlt hkj

theorem Chained.register {c : Cache κ ν} (h : c.Chained) {k : κ} {p : Option Nat}
    (hs : c.pending.get? k = p.map fun q => ⟨q, true⟩) : (c.register k p).Chained := by
  constructor
  · intro k' g b hg
    by_cases hk : k' = k
    · subst k'
      obtain ⟨rfl, rfl⟩ : c.loads.length = g ∧ false = b := by simpa [Cache.register] using hg
      refine ⟨keyOf_register.mpr (Or.inr ⟨rfl, rfl⟩), ?_, ?_⟩
      · rw [finished_register]
        rintro ⟨entry, he⟩
        simp [phaseOf_length] at he
      · intro j hj
        rcases keyOf_register.mp hj with hj | ⟨rfl, -⟩
        · exact Nat.le_of_lt (lt_length_of_keyOf hj)
        · exact Nat.le_refl _
    · have hg' : c.pending.get? k' = some ⟨g, b⟩ := by simpa [Cache.register, hk] using hg
      obtain ⟨hkg, hfg, hlast⟩ := h.slot k' g b hg'
      refine ⟨keyOf_register.mpr (Or.inl hkg), by rwa [finished_register], ?_⟩
      intro j hj
      rcases keyOf_register.mp hj with hj | ⟨-, rfl⟩
      · exact hlast j hj
      · exact (hk rfl).elim
  · intro k' hn j hj
    have hk : k' ≠ k := by
      rintro rfl
      simp [Cache.register] at hn
    rw [finished_register]
    rcases keyOf_register.mp hj with hj | ⟨-, rfl⟩
    · exact h.free k' (by simpa [Cache.register, hk] using hn) j hj
    · exact (hk rfl).elim
  · intro k' g p' hg hp' j hj hkj
    rw [finished_register]
    rw [keyOf_register] at hkj
    rcases hkj with hkj | ⟨rfl, -⟩
    · rcases keyOf_register.mp hg with hg | ⟨rfl, rfl⟩
      · rcases predecessorOf_register.mp hp' with hp' | ⟨rfl, -⟩
        · rcases h.behind k' g p' hg hp' j hj hkj with hf | ⟨q, rfl, hkq, hjq⟩
          · exact Or.inl hf
          · exact Or.inr ⟨q, rfl, keyOf_register.mpr (Or.inl hkq), hjq⟩
        · exact absurd (lt_length_of_keyOf hg) (Nat.lt_irrefl _)
      · -- The new load: its predecessor held the slot, so no elder comes after it.
        obtain rfl : p = p' := by
          rcases predecessorOf_register.mp hp' with hp' | ⟨-, rfl⟩
          · simp [predecessorOf] at hp'
          · rfl
        cases p with
        | none => exact Or.inl (h.free k hs j hkj)
        | some q =>
          obtain ⟨hkq, -, hlast⟩ := h.slot k q true hs
          exact Or.inr ⟨q, rfl, keyOf_register.mpr (Or.inl hkq), hlast j hkj⟩
    · rcases keyOf_register.mp hg with hg | ⟨rfl, -⟩
      · exact absurd (lt_length_of_keyOf hg) (by omega)
      · exact absurd hj (Nat.lt_irrefl _)
  · intro k' g hg hc j hj hkj
    rw [called_register] at hc
    rw [finished_register]
    rcases keyOf_register.mp hg with hg | ⟨rfl, -⟩
    · rcases keyOf_register.mp hkj with hkj | ⟨rfl, -⟩
      · exact h.called k' g hg hc j hj hkj
      · exact absurd (lt_length_of_keyOf hg) (by omega)
    · rcases hc with hc | ⟨entry, hc⟩ <;> simp [phaseOf_length] at hc
  · intro g q hg
    rcases predecessorOf_register.mp hg with hg | ⟨rfl, rfl⟩
    · exact h.older g q hg
    · exact lt_length_of_keyOf (h.slot k q true hs).1

theorem Chained.request {c : Cache κ ν} (h : c.Chained) (k : κ) (time : ClockReading) :
    (c.request k time).1.Chained := by
  have hr := registering c k time
  generalize (c.request k time).1 = d at hr ⊢
  generalize (c.request k time).2.2 = started at hr
  cases hr with
  | nothing => exact h.congr rfl rfl
  | load hs => exact (h.register hs).congr rfl rfl

theorem Chained.begin {c : Cache κ ν} (h : c.Chained) {g : Nat} {load : Load κ ν}
    (hl : c.loads[g]? = some load) (hq : load.phase = .queued) (hr : c.isReady load = true) :
    (c.begin g).Chained := by
  obtain ⟨hk, -, hph⟩ := lookups hl
  rw [hq] at hph
  constructor
  · intro k' j b hs
    obtain ⟨hkj, hfj, hlast⟩ := h.slot k' j b hs
    exact ⟨by simpa using hkj, by rwa [finished_begin hph], by simpa using hlast⟩
  · intro k' hn j hj
    rw [finished_begin hph]
    exact h.free k' hn j (by simpa using hj)
  · intro k' j p hj hp i hi hki
    rw [finished_begin hph]
    simpa using h.behind k' j p (by simpa using hj) (by simpa using hp) i hi (by simpa using hki)
  · intro k' j hj hc i hi hki
    rw [finished_begin hph]
    rw [keyOf_begin] at hj hki
    rcases (called_begin hph).mp hc with hc | rfl
    · exact h.called k' j hj hc i hi hki
    · obtain rfl : load.key = k' := by simpa [hk] using hj
      exact h.elders_of_ready hl hr i hi hki
  · intro j p hp
    exact h.older j p (by simpa using hp)

theorem Chained.complete {c : Cache κ ν} (h : c.Chained) {g : Nat} {load : Load κ ν}
    {time : ClockReading} {result : LoadResult ν} (hl : c.loads[g]? = some load)
    (hr : load.phase = .running) : (c.complete load.key g time result).Chained := by
  obtain ⟨hk, -, hph⟩ := lookups hl
  rw [hr] at hph
  constructor
  · intro k' j b hs
    rw [pending_complete] at hs
    split at hs
    case isTrue => simp at hs
    case isFalse hne =>
      obtain ⟨hkj, hfj, hlast⟩ := h.slot k' j b hs
      refine ⟨by simpa using hkj, ?_, by simpa using hlast⟩
      rw [finished_complete hph]
      rintro (hf | rfl)
      · exact hfj hf
      · obtain rfl : load.key = k' := by simpa [hk] using hkj
        exact hne ⟨rfl, ownsSlot_iff.mpr ⟨b, hs⟩⟩
  · intro k' hn j hj
    rw [finished_complete hph]
    rw [keyOf_complete] at hj
    rw [pending_complete] at hn
    split at hn
    case isTrue ho =>
      obtain ⟨rfl, ho⟩ := ho
      obtain ⟨b, hs⟩ := ownsSlot_iff.mp ho
      rcases Nat.eq_or_lt_of_le ((h.slot _ _ _ hs).2.2 j hj) with rfl | hlt
      · exact Or.inr rfl
      · exact Or.inl (h.called _ g hk (Or.inl hph) j hlt hj)
    case isFalse => exact Or.inl (h.free k' hn j hj)
  · intro k' j p hj hp i hi hki
    rw [finished_complete hph]
    rw [keyOf_complete] at hj hki
    rw [predecessorOf_complete] at hp
    rcases h.behind k' j p hj hp i hi hki with hf | ⟨q, hq, hkq, hiq⟩
    · exact Or.inl (Or.inl hf)
    · exact Or.inr ⟨q, hq, by simpa using hkq, hiq⟩
  · intro k' j hj hc i hi hki
    rw [finished_complete hph]
    rw [called_complete hph] at hc
    rw [keyOf_complete] at hj hki
    exact Or.inl (h.called k' j hj hc i hi hki)
  · intro j p hp
    exact h.older j p (by simpa using hp)

/-- Invalidating marks slots and moves no load. -/
theorem Chained.mark {c d : Cache κ ν} (h : c.Chained) (hl : d.loads = c.loads)
    (hs : ∀ k g b, d.pending.get? k = some ⟨g, b⟩ → ∃ b', c.pending.get? k = some ⟨g, b'⟩)
    (hn : ∀ k, d.pending.get? k = none → c.pending.get? k = none) : d.Chained := by
  obtain ⟨policy, entries, pending, counters, loads⟩ := d
  obtain rfl : loads = c.loads := hl
  refine ⟨?_, fun k hd => h.free k (hn k hd), h.behind, h.called, h.older⟩
  intro k g b hd
  obtain ⟨b', hb⟩ := hs k g b hd
  exact h.slot k g b' hb

theorem Chained.invalidate {c : Cache κ ν} (h : c.Chained) (k : κ) : (c.invalidate k).Chained := by
  refine h.mark ?_ ?_ ?_
  · rfl
  · intro k' g b hs
    rw [pending_invalidate] at hs
    split at hs
    · obtain ⟨⟨g', b'⟩, hb, he⟩ := Option.map_eq_some_iff.mp hs
      simp at he
      exact ⟨b', by rw [hb, he.1]⟩
    · exact ⟨b, hs⟩
  · intro k' hn
    rw [pending_invalidate] at hn
    split at hn
    · simpa using hn
    · exact hn

theorem Chained.invalidateAll {c : Cache κ ν} (h : c.Chained) : c.invalidateAll.Chained := by
  refine h.mark ?_ ?_ ?_
  · rfl
  · intro k g b hs
    rw [pending_invalidateAll] at hs
    obtain ⟨⟨g', b'⟩, hb, he⟩ := Option.map_eq_some_iff.mp hs
    simp at he
    exact ⟨b', by rw [hb, he.1]⟩
  · intro k hn
    simpa using hn

theorem chained_step {s t : State κ ν} {a : Action κ ν} (h : Step s a t) (hs : s.cache.Chained) :
    t.cache.Chained := by
  cases h with
  | get => exact hs.request _ _
  | cancel => exact hs
  | answer => exact hs
  | begin hl hq hr => exact hs.begin hl hq hr
  | finish hl hr => exact hs.complete hl hr
  | invalidate => exact hs.invalidate _
  | invalidateAll => exact hs.invalidateAll

theorem Reachable.chained {policy : FreshnessPolicy} {s : State κ ν} (h : Reachable policy s) :
    s.cache.Chained := by
  induction h with
  | initial => exact .empty policy
  | step _ h ih => exact chained_step h ih

theorem Execution.chained {policy : FreshnessPolicy} (E : Execution κ ν policy) (n : Nat) :
    (E.state n).cache.Chained := (E.reachable n).chained

end RowReplay.Cache
