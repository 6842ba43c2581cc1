import RowReplay.Proofs.Cache.Succession

/-!
Reloading when it is due, for values and failures alike. The load that stores an entry is the last
one of its key, so as long as every call finds the entry fresh, no load of the key is registered,
queued or running.
-/
namespace RowReplay

theorem Entry.result_ofResult {κ ν : Type} (k : κ) (r : Except LoadError ν) (s : ClockReading) :
    (Entry.ofResult r s).result k = Cache.outcome k (some r) := by
  cases r <;> rfl

namespace Cache.Execution

variable {κ ν : Type} [DecidableEq κ] {policy : FreshnessPolicy} {E : Execution κ ν policy}
  {b c f g g' j n : Nat} {k : κ} {s time : ClockReading} {r : Except LoadError ν}

/-- The load's own result, be it a value or a failure, becomes the entry of its key. -/
structure Stores (E : Execution κ ν policy) (k : κ) (g : Nat) (s : ClockReading)
    (r : Except LoadError ν) (f : Nat) : Prop where
  finishes : E.Finishes k g s (some r) f
  live : E.Live k g f
  stored : (E.state (f + 1)).cache.peek k = some (.ofResult r s)

/-- Between two steps the key is not invalidated, and every call finds what was loaded at a time still
fresh. -/
def Quiet (E : Execution κ ν policy) (k : κ) (since : ClockReading) (f n : Nat) : Prop :=
  ∀ i, f < i → i < n → ¬ E.Invalidates k i ∧ ∀ c time, E.Asks c k time i →
    time.elapsed - since.elapsed ≤ min policy.refreshAfter.nanos policy.ttl.nanos

theorem Quiet.shorter (h : E.Quiet k s f n) (hj : j ≤ n) : E.Quiet k s f j :=
  fun i hfi hij => h i hfi (by omega)

/-- An entry stays as long as the key is not invalidated and none of its loads finishes. -/
theorem Stores.stays (h : E.Stores k g s r f) (hfn : f < n)
    (hi : ∀ i, f < i → i < n → ¬ E.Invalidates k i)
    (hf : ∀ i g' s' result, f < i → i < n → ¬ E.Finishes k g' s' result i) :
    (E.state n).cache.peek k = some (.ofResult r s) := by
  induction hfn with
  | refl => exact h.stored
  | @step n hfn ih =>
    refine peek_succ.mpr (Or.inr ⟨ih ?_ ?_, hi n hfn (Nat.lt_succ_self n), ?_⟩)
    · exact fun i hfi hin => hi i hfi (Nat.lt_succ_of_lt hin)
    · exact fun i g' s' result hfi hin => hf i g' s' result hfi (Nat.lt_succ_of_lt hin)
    · exact fun g' s' result _ hfin => (hf n g' s' result hfn (Nat.lt_succ_self n) hfin).elim

/-- The load that stores an entry is the last one of its key. -/
theorem Stores.none_unfinished (h : E.Stores k g s r f) : ¬ E.Unfinished k g' (f + 1) := by
  have hfree : (E.state (f + 1)).cache.isLoading k = false :=
    h.finishes.isLoading_succ.mpr fun hs => hs.not_intact h.finishes.before h.live.1
  intro hu
  have hbusy := isLoading_iff.mpr ⟨g', hu⟩
  simp [hfree] at hbusy

/-- What finishes after it is a later load. -/
theorem Stores.later (h : E.Stores k g s r f) {i : Nat} {s' : ClockReading} {result : LoadResult ν}
    (hfin : E.Finishes k g' s' result i) (hfi : f < i) : g < g' := by
  refine Nat.lt_of_not_le fun hle => ?_
  have hk : (E.state f).cache.keyOf g' = some k := by
    obtain ⟨k', hk'⟩ := exists_keyOf_of_lt (Nat.lt_of_le_of_lt hle (lt_length_of_keyOf h.finishes.2))
    rwa [key_unique hk' hfin.2] at hk'
  have hu : E.Unfinished k g' i := hfin.before
  obtain ⟨q, hq, hr⟩ := registered_iff.mp hk
  exact h.none_unfinished ⟨⟨q, by omega, hr⟩, fun f' s' result hf' => hu.2 f' s' result (by omega)⟩

theorem Unfinished.of_succ (h : E.Unfinished k g (n + 1)) :
    E.Registers k g n ∨ E.Unfinished k g n := by
  obtain ⟨⟨q, hq, hr⟩, hf⟩ := h
  rcases Nat.lt_succ_iff_lt_or_eq.mp hq with hq | rfl
  · exact Or.inr ⟨⟨q, hq, hr⟩, fun f s result hfn => hf f s result (by omega)⟩
  · exact Or.inl hr

/-- A call that finds a stored entry fresh registers nothing. -/
theorem Asks.not_registers (ha : E.Asks c k time j)
    (hp : (E.state j).cache.peek k = some (.ofResult r s))
    (ht : time.elapsed - s.elapsed ≤ min policy.refreshAfter.nanos policy.ttl.nanos) :
    ¬ E.Registers k g j := by
  intro hr
  have hpast := hr.not_fresh hp
  rw [ha.clock_succ, Entry.loadedAt_ofResult] at hpast
  omega

/-- As long as every call finds the entry fresh, it stays, and its key has no unfinished load. -/
theorem Stores.quiet (h : E.Stores k g s r f) (hfn : f < n) (hq : E.Quiet k s f n) :
    (E.state n).cache.peek k = some (.ofResult r s) ∧ ∀ g', ¬ E.Unfinished k g' n := by
  induction hfn with
  | refl => exact ⟨h.stored, fun g' => h.none_unfinished⟩
  | @step n hfn ih =>
    obtain ⟨hp, hnone⟩ := ih (hq.shorter (Nat.le_succ n))
    obtain ⟨hi, ht⟩ := hq n hfn (Nat.lt_succ_self n)
    constructor
    · refine peek_succ.mpr (Or.inr ⟨hp, hi, ?_⟩)
      exact fun g' s' result _ hfin => (hnone g' hfin.before).elim
    · intro g' hu
      rcases hu.of_succ with hr | hu
      · obtain ⟨time, he, -⟩ := id hr
        have ha : E.Asks _ k time n := ⟨he, rfl⟩
        exact ha.not_registers hp (ht _ time ha) hr
      · exact hnone g' hu

theorem Begins.unfinished (h : E.Begins k g b) : E.Unfinished k g b :=
  unfinished_iff.mpr ⟨h.2, fun hf => h.uncalled hf.called⟩

/-- A call within the time to live of a stored entry is answered by it, at once and for good. -/
theorem Asks.answered_within (ha : E.Asks c k time j)
    (hp : (E.state j).cache.peek k = some (.ofResult r s))
    (ht : time.elapsed - s.elapsed ≤ policy.ttl.nanos) (hjn : j < n) :
    E.Answered c k (outcome k (some r)) n := by
  have hserved := ha.served hp fun hexp => by
    have hlate := Entry.expired_iff.mp hexp
    rw [Entry.loadedAt_ofResult] at hlate
    omega
  rw [Entry.result_ofResult] at hserved
  exact hserved.stays hjn

/-- For any interleaving, after a load has stored its value, or its failure where there was no valid
value: the loader is not called for the key until the key is invalidated, or a call is decided past
the refresh point or the time to live, whichever is earlier. Every call before that registers no load
and is answered at once and for good with that value or failure. So is every call within the time to
live, its last instant included, until a later load of the key finishes or the key is invalidated,
whatever loads are under way. -/
theorem reloads_only_when_due (E : Execution κ ν policy) {k : κ} {g f : Nat} {s : ClockReading}
    {r : Except LoadError ν} (h : E.Stores k g s r f) :
    (∀ g' b, f < b → E.Quiet k s f b → ¬ E.Begins k g' b) ∧
    (∀ c j time, f < j → E.Asks c k time j → E.Quiet k s f (j + 1) →
      (∀ g', ¬ E.Registers k g' j) ∧ ∀ n, j < n → E.Answered c k (outcome k (some r)) n) ∧
    ∀ c j time, f < j → E.Asks c k time j → time.elapsed - s.elapsed ≤ policy.ttl.nanos →
      (∀ i, f < i → i < j → ¬ E.Invalidates k i) →
      (∀ i g' s' result, f < i → i < j → g < g' → ¬ E.Finishes k g' s' result i) →
      ∀ n, j < n → E.Answered c k (outcome k (some r)) n := by
  refine ⟨?_, ?_, ?_⟩
  · intro g' b hfb hq hb
    exact (h.quiet hfb hq).2 g' hb.unfinished
  · intro c j time hfj ha hq
    have hp := (h.quiet hfj (hq.shorter (Nat.le_succ j))).1
    have ht := (hq j hfj (Nat.lt_succ_self j)).2 c time ha
    constructor
    · exact fun g' => ha.not_registers hp ht
    · exact fun n hjn => ha.answered_within hp (Nat.le_trans ht (Nat.min_le_right ..)) hjn
  · intro c j time hfj ha ht hi hf n hjn
    refine ha.answered_within (h.stays hfj hi ?_) ht hjn
    exact fun i g' s' result hfi hij hfin => hf i g' s' result hfi hij (h.later hfin hfi) hfin

/-- A failure is cached: it is told within its refresh point, told and reloaded after it, and told up
to its last instant while the reload runs; then the reload fails too, and its failure is stored. -/
def cachedFailure : Execution Nat Nat ⟨⟨10⟩, ⟨5⟩⟩ :=
  .ofActions _
    [.get 0 ⟨0, 0⟩, .begin 0, .finish 0 ⟨1, 0⟩ (some (.error (.ofMessage "down"))), .get 0 ⟨6, 0⟩,
      .get 0 ⟨7, 0⟩, .begin 1, .get 0 ⟨11, 0⟩,
      .finish 1 ⟨11, 0⟩ (some (.error (.ofMessage "gone")))]
    (by decide)

/-- One call comes at the refresh point, one at the end of the time to live; the call between them is
past the refresh point, and registers a load. -/
theorem reloads_only_when_due_sample :
    cachedFailure.Stores 0 0 ⟨1, 0⟩ (.error (.ofMessage "down")) 2 ∧
      ¬ cachedFailure.Registers 0 1 3 ∧ cachedFailure.Registers 0 1 4 ∧
      cachedFailure.Begins 0 1 5 ∧
      (∀ n, 3 < n → cachedFailure.Answered 1 0 (.error (.load 0 (.ofMessage "down"))) n) ∧
      ∀ n, 6 < n → cachedFailure.Answered 3 0 (.error (.load 0 (.ofMessage "down"))) n :=
  have h : cachedFailure.Stores 0 0 ⟨1, 0⟩ (.error (.ofMessage "down")) 2 :=
    ⟨⟨rfl, rfl⟩, live_iff.mpr rfl, rfl⟩
  have hq : cachedFailure.Quiet 0 ⟨1, 0⟩ 2 4 := by
    intro i h2 h4
    obtain rfl : i = 3 := by omega
    refine ⟨fun h => h.elim nofun nofun, ?_⟩
    rintro c time ⟨he, -⟩
    cases he
    decide
  have hall := reloads_only_when_due cachedFailure h
  have hat := hall.2.1 1 3 ⟨6, 0⟩ (by decide) ⟨rfl, rfl⟩ hq
  have hlast := hall.2.2 3 6 ⟨11, 0⟩ (by decide) ⟨rfl, rfl⟩ (by decide)
    (by
      intro i h2 h6
      interval_cases i <;> exact fun h => h.elim nofun nofun)
    (by
      intro i g' s' result h2 h6 _ ⟨he, _⟩
      interval_cases i <;> cases he)
  ⟨h, hat.1 1, ⟨⟨7, 0⟩, rfl, rfl⟩, ⟨rfl, rfl⟩, hat.2, hlast⟩

end Cache.Execution

end RowReplay
