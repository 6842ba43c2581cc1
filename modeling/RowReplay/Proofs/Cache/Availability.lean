import Mathlib.Tactic.IntervalCases
import RowReplay.Proofs.Cache.Staleness

/-!
Availability. A value that a load has put into the cache answers every call at once until it expires
or its key is invalidated, whatever becomes of the refreshes meanwhile.
-/
namespace RowReplay.Cache.Execution

variable {κ ν : Type} [DecidableEq κ] {policy : FreshnessPolicy} {E : Execution κ ν policy}
  {c f g i j m n : Nat} {k : κ} {time s : ClockReading} {v : ν} {e : Entry ν}
  {answer : Except (CacheError κ) ν}

/-- The load succeeds while it is live, so its value goes into the cache. -/
def Installs (E : Execution κ ν policy) (k : κ) (g : Nat) (s : ClockReading) (v : ν) (f : Nat) :
    Prop :=
  E.Finishes k g s (some (.ok v)) f ∧ E.Live k g f

theorem Installs.peek_succ (h : E.Installs k g s v f) :
    (E.state (f + 1)).cache.peek k = some (.loaded v s) :=
  h.1.peek_succ.mpr (Or.inl ⟨rfl, h.2, rfl⟩)

/-! Calls that are served. -/

theorem Asks.served (ha : E.Asks c k time j) (he : (E.state j).cache.peek k = some e)
    (hf : e.freshness policy time ≠ .expired) : E.Answered c k (e.result k) (j + 1) := by
  have hd := served_of_valid he (by rwa [E.policy_eq])
  have hs := E.step j _ ha.1
  simp only [Answered]
  generalize E.state (j + 1) = t at hs ⊢
  cases hs with
  | get => rcases hd with hd | hd <;> simp [State.ask, ha.2, hd, standingOf]

theorem Answered.succ (h : E.Answered i k answer n) : E.Answered i k answer (n + 1) := by
  simp only [Answered] at h ⊢
  cases he : E.event n with
  | none => rwa [E.pad n he]
  | some a =>
    have hs := E.step n a he
    generalize E.state (n + 1) = t at hs ⊢
    cases hs with
    | get =>
      have hi := (List.getElem?_eq_some_iff.mp h).1
      simpa [State.ask, List.getElem?_append_left hi] using h
    | @cancel i' _ _ hc | @answer i' _ _ _ hc =>
      have hne : i' ≠ i := by
        rintro rfl
        rw [hc] at h
        cases h
      simpa [State.setStanding, hne] using h
    | _ => exact h

/-- An answer is final. -/
theorem Answered.stays (h : E.Answered i k answer m) (hmn : m ≤ n) : E.Answered i k answer n := by
  induction hmn with
  | refl => exact h
  | step _ ih => exact ih.succ

/-! The value in the cache. -/

/-- The key has an entry with a value that is no older than a time. -/
def HoldsSince (E : Execution κ ν policy) (k : κ) (since n : Nat) : Prop :=
  ∃ e v, (E.state n).cache.peek k = some e ∧ e.value = some v ∧ since ≤ e.loadedAt.elapsed

/-- A value stays until it expires: a failure keeps it with its time, a crash leaves it alone, and a
success puts a younger one in its place. -/
theorem HoldsSince.succ {since : Nat} (h : E.HoldsSince k since n) (hi : ¬ E.Invalidates k n)
    (hs : since ≤ (E.state n).clock.elapsed)
    (ht : (E.state (n + 1)).clock.elapsed ≤ since + policy.ttl.nanos) :
    E.HoldsSince k since (n + 1) := by
  obtain ⟨e, v, hp, hv, hold⟩ := h
  by_cases hfin : ∃ g time result, E.Live k g n ∧ E.Finishes k g time result n ∧ result ≠ none
  · obtain ⟨g, time, result, hl, hf, hr⟩ := hfin
    obtain ⟨made, hm⟩ : ∃ made, (E.state n).cache.entryOf k time result = some made := by
      rwa [← Option.ne_none_iff_exists', Ne, entryOf_eq_none_iff]
    have hp' := Execution.peek_succ.mpr (Or.inl ⟨g, time, result, hl, hf, hm⟩)
    rw [hf.clock_succ] at ht
    cases making hm with
    | loaded => exact ⟨_, _, hp', rfl, Nat.le_trans hs hf.time_le⟩
    | kept he =>
      obtain rfl : e = _ := Option.some.inj (hp.symm.trans he)
      exact ⟨_, v, hp', hv, hold⟩
    | failed hexp =>
      -- The value would have had to expire before the failure.
      have hlate := Entry.expired_iff.mp (hexp e hp (by simp [hv]))
      rw [E.policy_eq] at hlate
      omega
  · refine ⟨e, v, Execution.peek_succ.mpr (Or.inr ⟨hp, hi, ?_⟩), hv, hold⟩
    intro g time result hl hf
    exact Decidable.of_not_not fun hr => hfin ⟨g, time, result, hl, hf, hr⟩

theorem Installs.holdsSince (h : E.Installs k g s v f) (hfn : f < n)
    (hi : ∀ i, f < i → i < n → ¬ E.Invalidates k i)
    (ht : (E.state n).clock.elapsed ≤ s.elapsed + policy.ttl.nanos) :
    E.HoldsSince k s.elapsed n := by
  induction hfn with
  | refl => exact ⟨_, v, h.peek_succ, rfl, Nat.le_refl _⟩
  | @step n hfn ih =>
    have hclock := E.clock_mono (show f + 1 ≤ n from hfn)
    rw [h.1.clock_succ] at hclock
    refine (ih ?_ ?_).succ (hi n hfn (Nat.lt_succ_self n)) hclock ht
    · exact fun i hfi hin => hi i hfi (Nat.lt_succ_of_lt hin)
    · exact Nat.le_trans (E.clock_succ n) ht

/-- For any interleaving: once a load has put its value into the cache, and as long as its key is not
invalidated, a call that decides within the value's time to live, its last instant included, is
answered at once and for good with that value or that of a later load, the latest one there is. -/
theorem available_until_expiry (E : Execution κ ν policy) (hin : E.Installs k g s v f)
    (ha : E.Asks c k time j) (hfj : f < j) (hi : ∀ i, f < i → i < j → ¬ E.Invalidates k i)
    (ht : time.elapsed ≤ s.elapsed + policy.ttl.nanos) :
    ∃ g' f' s' v', E.Installs k g' s' v' f' ∧ f ≤ f' ∧ f' < j ∧
      (∀ n, j < n → E.Answered c k (.ok v') n) ∧
      ∀ g'' f'' s'' v'', f' < f'' → f'' < j → ¬ E.Installs k g'' s'' v'' f'' := by
  obtain ⟨e, v', hp, hv, hold⟩ := hin.holdsSince hfj hi (Nat.le_trans ha.time_le ht)
  obtain ⟨g', f', hprod, hlast⟩ := value_origin hp hv
  have hlater : ∀ g'' f'' s'' v'', f' < f'' → f'' < j → ¬ E.Installs k g'' s'' v'' f'' := by
    intro g'' f'' s'' v'' hff hfj ⟨hfin, hl⟩
    simpa [replaces] using hlast g'' f'' s'' _ hff hfj hfin hl
  refine ⟨g', f', e.loadedAt, v', ⟨hprod.2.1, hprod.live⟩, ?_, hprod.1, ?_, hlater⟩
  · exact Nat.le_of_not_lt fun hff => hlater g f s v hff hfj hin
  · have hserved := ha.served hp fun hexp => by
      have := Entry.expired_iff.mp hexp
      omega
    intro n hjn
    simpa [Entry.result, hv] using hserved.stays hjn

/-- One refresh crashes, one fails, and one fails in the last instant of the value's time to live. -/
def failingRefreshes : Execution Nat Nat ⟨⟨10⟩, ⟨5⟩⟩ :=
  .ofActions _
    [.get 0 ⟨0, 0⟩, .begin 0, .finish 0 ⟨0, 0⟩ (some (.ok 7)), .answer 0, .get 0 ⟨6, 0⟩, .begin 1,
      .finish 1 ⟨7, 0⟩ none, .get 0 ⟨8, 0⟩, .begin 2,
      .finish 2 ⟨9, 0⟩ (some (.error (.ofMessage "down"))), .get 0 ⟨10, 0⟩, .begin 3,
      .finish 3 ⟨10, 0⟩ (some (.error (.ofMessage "down"))), .get 0 ⟨10, 0⟩]
    (by decide)

/-- The last call comes after the failure in the last instant, in that same instant. -/
theorem available_until_expiry_sample :
    failingRefreshes.Installs 0 0 ⟨0, 0⟩ 7 2 ∧
      failingRefreshes.Finishes 0 3 ⟨10, 0⟩ (some (.error (.ofMessage "down"))) 12 ∧
      failingRefreshes.Asks 4 0 ⟨10, 0⟩ 13 ∧
      ∃ g' f' s' v', failingRefreshes.Installs 0 g' s' v' f' ∧ 2 ≤ f' ∧ f' < 13 ∧
        (∀ n, 13 < n → failingRefreshes.Answered 4 0 (.ok v') n) ∧
        ∀ g'' f'' s'' v'', f' < f'' → f'' < 13 → ¬ failingRefreshes.Installs 0 g'' s'' v'' f'' :=
  have hin : failingRefreshes.Installs 0 0 ⟨0, 0⟩ 7 2 := ⟨⟨rfl, rfl⟩, live_iff.mpr rfl⟩
  have ha : failingRefreshes.Asks 4 0 ⟨10, 0⟩ 13 := ⟨rfl, rfl⟩
  have hi : ∀ i, 2 < i → i < 13 → ¬ failingRefreshes.Invalidates 0 i := by
    intro i h2 h13
    interval_cases i <;> exact fun h => h.elim nofun nofun
  ⟨hin, ⟨rfl, rfl⟩, ha, available_until_expiry failingRefreshes hin ha (by decide) hi (by decide)⟩

end RowReplay.Cache.Execution
