import RowReplay.Proofs.Cache.Availability
import RowReplay.Proofs.Cache.Sharing

/-!
Slots. A key's slot shows whether one of its loads is unfinished; the load that finishes last frees
it, and only a load that is still intact changes the entries, by the entry that its waiters get.
-/
namespace RowReplay.Cache

variable {κ ν : Type} [DecidableEq κ] {k : κ} {g : Nat} {time : ClockReading}
  {result : LoadResult ν}

theorem isLoading_eq_true_iff {c : Cache κ ν} :
    c.isLoading k = true ↔ ∃ g b, c.pending.get? k = some ⟨g, b⟩ := by
  rw [isLoading, Table.contains, Option.isSome_iff_exists]
  constructor
  · rintro ⟨⟨g, b⟩, hs⟩
    exact ⟨g, b, hs⟩
  · rintro ⟨g, b, hs⟩
    exact ⟨_, hs⟩

/-- Only a call that is not served a fresh entry registers a load. -/
theorem not_hit_of_registered {c : Cache κ ν} (h : (c.request k time).2.2 = some g) (e : Entry ν) :
    (c.request k time).2.1 ≠ .hit e := by
  have hd := deciding c k time
  generalize c.request k time = r at hd h ⊢
  cases hd with
  | hit => cases h
  | staleHit | miss => exact nofun

theorem entries_complete_of_current {c : Cache κ ν} {e : Entry ν} (hc : c.isCurrent k g = true)
    (he : c.entryOf k time result = some e) :
    (c.complete k g time result).entries = c.entries.insert k e := by
  simp [complete, setPhase, he, hc]

theorem entries_complete_of_not_current {c : Cache κ ν} (hc : c.isCurrent k g ≠ true) :
    (c.complete k g time result).entries = c.entries := by
  cases he : c.entryOf k time result with
  | none => simp [complete, setPhase, he]
  | some e => simp [complete, setPhase, he, hc]

theorem entries_complete_of_crash {c : Cache κ ν} :
    (c.complete k g time none).entries = c.entries := rfl

namespace Execution

variable {policy : FreshnessPolicy} {E : Execution κ ν policy} {g' f j m n : Nat} {c : Nat}
  {s : ClockReading} {e : Entry ν} {answer : Except (CacheError κ) ν}

/-- A call that is not served a fresh entry. -/
def Needs (E : Execution κ ν policy) (k : κ) (n : Nat) : Prop :=
  ∃ c time, E.Asks c k time n ∧ ∀ e, ((E.state n).cache.request k time).2.1 ≠ .hit e

/-- A later load of the key has been registered. -/
def Superseded (E : Execution κ ν policy) (k : κ) (g n : Nat) : Prop :=
  ∃ g' q, q < n ∧ E.Registers k g' q ∧ g < g'

/-- A load of the key is registered and has not finished. -/
def Unfinished (E : Execution κ ν policy) (k : κ) (g n : Nat) : Prop :=
  (∃ q, q < n ∧ E.Registers k g q) ∧ ∀ f s result, f < n → ¬ E.Finishes k g s result f

theorem unfinished_iff :
    E.Unfinished k g n ↔ (E.state n).cache.keyOf g = some k ∧ ¬ (E.state n).cache.Finished g := by
  rw [Unfinished, ← registered_iff]
  refine and_congr_right fun hk => ?_
  rw [finished_iff]
  constructor
  · rintro hnone ⟨f, hf, k', s, result, hfin⟩
    obtain rfl := key_unique hfin.2 hk
    exact hnone f s result hf hfin
  · intro hnone f s result hf hfin
    exact hnone ⟨f, hf, k, s, result, hfin⟩

theorem Registers.needs (h : E.Registers k g n) : E.Needs k n := by
  obtain ⟨time, he, hr⟩ := h
  exact ⟨_, time, ⟨he, rfl⟩, not_hit_of_registered hr⟩

theorem Finishes.before (h : E.Finishes k g s result f) : E.Unfinished k g f :=
  unfinished_iff.mpr ⟨h.2, h.unfinished⟩

/-! The slot. -/

/-- The slot is taken just as long as a load of the key is unfinished. -/
theorem isLoading_iff : (E.state n).cache.isLoading k = true ↔ ∃ g, E.Unfinished k g n := by
  simp only [isLoading_eq_true_iff, unfinished_iff]
  constructor
  · rintro ⟨g, b, hs⟩
    obtain ⟨hk, hg, -⟩ := (E.chained n).slot k g b hs
    exact ⟨g, hk, hg⟩
  · rintro ⟨g, hk, hg⟩
    cases hs : (E.state n).cache.pending.get? k with
    | none => exact (hg ((E.chained n).free k hs g hk)).elim
    | some slot => exact ⟨slot.generation, slot.invalidated, rfl⟩

/-- The slot belongs to the last load. -/
theorem Unfinished.ownsSlot_iff (h : E.Unfinished k g n) :
    (E.state n).cache.ownsSlot k g = true ↔ ¬ E.Superseded k g n := by
  rw [Cache.ownsSlot_iff]
  constructor
  · rintro ⟨b, hs⟩ ⟨g', q, hq, hr, hlt⟩
    have := ((E.chained n).slot k g b hs).2.2 g' (registered_iff.mpr ⟨q, hq, hr⟩)
    omega
  · intro hlast
    obtain ⟨g', b, hs⟩ := isLoading_eq_true_iff.mp (isLoading_iff.mpr ⟨g, h⟩)
    obtain ⟨hk', -, hle⟩ := (E.chained n).slot k g' b hs
    obtain ⟨q, hq, hr⟩ := registered_iff.mp hk'
    have hge : ¬ g < g' := fun hlt => hlast ⟨g', q, hq, hr, hlt⟩
    obtain rfl : g' = g := Nat.le_antisymm (by omega) (hle g (unfinished_iff.mp h).1)
    exact ⟨b, hs⟩

/-- A load is superseded only after an invalidation. -/
theorem Superseded.not_intact (h : E.Superseded k g n) (hu : E.Unfinished k g n) :
    ¬ E.Intact k g n := by
  obtain ⟨g', q', hq', hr', hlt⟩ := h
  intro hi
  obtain ⟨⟨q, -, hr⟩, hf⟩ := hu
  have hqq := (registers_lt_iff hr hr').mp hlt
  have hlive : E.Live k g q' := by
    refine ⟨hi.earlier (registered_iff.mpr ⟨q, hqq, hr⟩) (by omega), ?_⟩
    exact fun f s result hfq => hf f s result (by omega)
  exact hlive.not_registers hr'

/-- A load that finishes frees the slot just if it is the last one. -/
theorem Finishes.isLoading_succ (h : E.Finishes k g s result f) :
    (E.state (f + 1)).cache.isLoading k = false ↔ ¬ E.Superseded k g f := by
  rw [← h.before.ownsSlot_iff, h.cache_succ, ← Bool.not_eq_true, isLoading_eq_true_iff,
    pending_complete]
  by_cases ho : (E.state f).cache.ownsSlot k g = true
  · simp [ho]
  · have hbusy := isLoading_eq_true_iff.mp (isLoading_iff.mpr ⟨g, h.before⟩)
    rw [if_neg fun h => ho h.2]
    exact iff_of_false (not_not_intro hbusy) ho

/-- A free slot is taken by the first call that is not served a fresh entry. -/
theorem Needs.registers (h : E.Needs k j) (hmj : m ≤ j)
    (hfree : (E.state m).cache.isLoading k = false)
    (hfirst : ∀ i, m ≤ i → i < j → ¬ E.Needs k i) : ∃ g, E.Registers k g j := by
  obtain ⟨c, time, ha, hd⟩ := h
  refine (ha.registers_iff_not_live hd).mpr ?_
  rintro ⟨g, ⟨q, hqj, hr, -⟩, hf⟩
  rcases Nat.lt_or_ge q m with hqm | hmq
  · have hbusy : (E.state m).cache.isLoading k = true := by
      refine isLoading_iff.mpr ⟨g, ⟨q, hqm, hr⟩, ?_⟩
      exact fun f s result hfm => hf f s result (by omega)
    simp [hbusy] at hfree
  · exact hfirst q hmq hqj hr.needs

/-! The entries. -/

theorem Finishes.intact_iff (h : E.Finishes k g s result f) :
    E.Intact k g f ↔ (E.state f).cache.pending.get? k = some ⟨g, false⟩ := by
  rw [← live_iff, Live, iff_self_and]
  exact fun _ => h.before.2

theorem Finishes.entries_of_not_intact (h : E.Finishes k g s result f) (hi : ¬ E.Intact k g f) :
    (E.state (f + 1)).cache.entries = (E.state f).cache.entries := by
  rw [h.cache_succ]
  apply entries_complete_of_not_current
  rwa [Ne, isCurrent_iff, ← h.intact_iff]

theorem Finishes.entries_of_crash (h : E.Finishes k g s none f) :
    (E.state (f + 1)).cache.entries = (E.state f).cache.entries := by
  rw [h.cache_succ, entries_complete_of_crash]

theorem Finishes.entries_of_intact (h : E.Finishes k g s result f) (hi : E.Intact k g f)
    (he : (E.state f).cache.entryOf k s result = some e) :
    (E.state (f + 1)).cache.entries = (E.state f).cache.entries.insert k e := by
  rw [h.cache_succ]
  exact entries_complete_of_current (isCurrent_iff.mpr (h.intact_iff.mp hi)) he

/-- Those who wait for a load get the entry that it has made. -/
theorem Finishes.handed (h : E.Finishes k g s result f)
    (he : (E.state f).cache.entryOf k s result = some e) :
    (∀ c n, f < n → E.Waits c k g n →
      Step (E.state n) (.answer c) ((E.state n).setStanding c (.answered (e.result k)))) ∧
    ∀ c m n answer, E.Waits c k g m → E.Answered c k answer n → answer = e.result k := by
  constructor
  · intro c n hfn hw
    have hp := h.phase hfn
    rw [he] at hp
    exact .answer hw hp
  · intro c m n answer hw hans
    obtain ⟨f', s', result', -, hfin, hwf, rfl⟩ := hw.until_finished hans
    obtain ⟨rfl, rfl, rfl⟩ := h.unique hfin
    rw [← hwf.answer_entryOf hfin, he]
    rfl

/-- For any interleaving, a key's slot is taken just as long as one of its loads is unfinished, and it
belongs to the last one. A load that ends with a value or an error, its key not invalidated since its
registration, still owns the slot, frees it, and in the same step replaces the entry by the one that
its waiters get; one that was invalidated or superseded leaves the entries as they are. So does one
that crashes, which frees the slot if it owned it: the next call that needs a load registers one. -/
theorem exact_slots (E : Execution κ ν policy) (k : κ) :
    (∀ n, (E.state n).cache.isLoading k = true ↔ ∃ g, E.Unfinished k g n) ∧
    (∀ g n, E.Unfinished k g n →
      ((E.state n).cache.ownsSlot k g = true ↔ ¬ E.Superseded k g n)) ∧
    (∀ g f s r, E.Finishes k g s (some r) f → E.Intact k g f →
      (E.state f).cache.pending.get? k = some ⟨g, false⟩ ∧
      (E.state (f + 1)).cache.isLoading k = false ∧
      ∃ e, (E.state (f + 1)).cache.entries = (E.state f).cache.entries.insert k e ∧
        (∀ c n, f < n → E.Waits c k g n →
          Step (E.state n) (.answer c) ((E.state n).setStanding c (.answered (e.result k)))) ∧
        ∀ c m n answer, E.Waits c k g m → E.Answered c k answer n → answer = e.result k) ∧
    (∀ g f s result, E.Finishes k g s result f → ¬ E.Intact k g f ∨ E.Superseded k g f →
      (E.state (f + 1)).cache.entries = (E.state f).cache.entries) ∧
    ∀ g f s, E.Finishes k g s none f →
      (E.state (f + 1)).cache.entries = (E.state f).cache.entries ∧
      ((E.state f).cache.ownsSlot k g = true →
        (E.state (f + 1)).cache.isLoading k = false ∧
        ∀ j, f < j → E.Needs k j → (∀ i, f < i → i < j → ¬ E.Needs k i) →
          ∃ g', E.Registers k g' j) := by
  refine ⟨?_, ?_, ?_, ?_, ?_⟩
  · intro n
    exact isLoading_iff
  · intro g n hu
    exact hu.ownsSlot_iff
  · intro g f s r hfin hi
    obtain ⟨e, he⟩ : ∃ e, (E.state f).cache.entryOf k s (some r) = some e := by
      rw [← Option.ne_none_iff_exists', Ne, entryOf_eq_none_iff]
      exact nofun
    refine ⟨hfin.intact_iff.mp hi, ?_, e, hfin.entries_of_intact hi he, hfin.handed he⟩
    exact hfin.isLoading_succ.mpr fun hs => hs.not_intact hfin.before hi
  · rintro g f s result hfin (hi | hs)
    · exact hfin.entries_of_not_intact hi
    · exact hfin.entries_of_not_intact (hs.not_intact hfin.before)
  · intro g f s hfin
    refine ⟨hfin.entries_of_crash, ?_⟩
    intro ho
    have hfree := hfin.isLoading_succ.mpr (hfin.before.ownsSlot_iff.mp ho)
    refine ⟨hfree, ?_⟩
    intro j hfj hj hfirst
    exact hj.registers hfj hfree hfirst

/-- The first load is superseded while it runs, and the second one's value goes to both its waiters;
in the other run a refresh crashes, and the next call starts another one. -/
theorem exact_slots_sample :
    ((sample.state 5).cache.ownsSlot 0 0 = true ↔ ¬ sample.Superseded 0 0 5) ∧
      (sample.state 6).cache.entries = (sample.state 5).cache.entries ∧
      (sample.state 9).cache.isLoading 0 = false ∧
      (∃ e, (sample.state 9).cache.entries = (sample.state 8).cache.entries.insert 0 e ∧
        .ok 8 = e.result 0) ∧
      (failingRefreshes.state 7).cache.entries = (failingRefreshes.state 6).cache.entries ∧
      (failingRefreshes.state 7).cache.isLoading 0 = false ∧
      ∃ g', failingRefreshes.Registers 0 g' 7 :=
  have hall := exact_slots sample 0
  have hsuper : sample.Superseded 0 0 5 := ⟨1, 3, by decide, ⟨_, rfl, rfl⟩, by decide⟩
  have hfirst : sample.Finishes 0 0 ⟨2, 0⟩ (some (.ok 7)) 5 := ⟨rfl, rfl⟩
  have hsecond : sample.Finishes 0 1 ⟨3, 0⟩ (some (.ok 8)) 8 := ⟨rfl, rfl⟩
  have hinstalled := hall.2.2.1 1 8 _ _ hsecond (hsecond.intact_iff.mpr rfl)
  have hcrash : failingRefreshes.Finishes 0 1 ⟨7, 0⟩ none 6 := ⟨rfl, rfl⟩
  have hneeds : failingRefreshes.Needs 0 7 := ⟨2, ⟨8, 0⟩, ⟨rfl, rfl⟩, nofun⟩
  have hfree := (exact_slots failingRefreshes 0).2.2.2.2 1 6 _ hcrash
  ⟨hall.2.1 0 5 hfirst.before, hall.2.2.2.1 0 5 _ _ hfirst (Or.inr hsuper), hinstalled.2.1,
    hinstalled.2.2.imp fun _ h => ⟨h.1, h.2.2 1 5 10 _ rfl rfl⟩, hfree.1, (hfree.2 rfl).1,
    (hfree.2 rfl).2 7 (by decide) hneeds (by omega)⟩

end Execution

end RowReplay.Cache
