import RowReplay.Proofs.Cache.Callers

/-!
How old an answer may be. What a call is told was loaded after the last invalidation of its key, and
a value that it does not wait for is the latest one and within its time to live.
-/
namespace RowReplay.Cache.Execution

variable {κ ν : Type} [DecidableEq κ] {policy : FreshnessPolicy} {E : Execution κ ν policy}
  {c f g i j n q : Nat} {k k' : κ} {time s : ClockReading} {e : Entry ν} {result : LoadResult ν}
  {answer : Except (CacheError κ) ν}

/-- What a stored entry answers is the latest result that an intact load has put there. -/
theorem entry_origin (hp : (E.state n).cache.peek k = some e) :
    ∃ g f s result, E.Produces k g s result f n ∧ E.Latest k result f n ∧
      e.result k = outcome k result ∧ ∀ v, result = some (.ok v) → s = e.loadedAt := by
  cases hv : e.value with
  | some v =>
    obtain ⟨g, f, hprod, hlast⟩ := value_origin hp hv
    exact ⟨g, f, e.loadedAt, _, hprod, hlast, by simp [Entry.result, hv, outcome], fun _ _ => rfl⟩
  | none =>
    have hfail : e.failure.isSome := by simpa [hv] using entry_filled hp
    obtain ⟨error, he⟩ := Option.isSome_iff_exists.mp hfail
    obtain ⟨g, f, s, hprod, hlast⟩ := failure_origin hp he
    exact ⟨g, f, s, _, hprod, hlast, by simp [Entry.result, hv, he, outcome], by simp⟩

/-- The load that a call is told of: it waited for that one, or was served its result. -/
theorem Answered.source (h : E.Answered c k answer n) (ha : E.Asks c k time j) :
    ∃ g f s result, f < n ∧ E.Finishes k g s result f ∧ answer = outcome k result ∧
      (j < f ∧ E.Waits c k g (j + 1) ∨
        E.Answered c k answer (j + 1) ∧ E.Produces k g s result f j ∧ E.Latest k result f j ∧
          ∀ v, result = some (.ok v) → time.elapsed - s.elapsed ≤ policy.ttl.nanos) := by
  obtain ⟨j', time', hj, ha', hcase⟩ := h.origin
  obtain ⟨rfl, -, rfl⟩ := ha.unique ha'
  rcases hcase with ⟨e, hp, hexp, rfl, hans⟩ | ⟨g, f, s, result, hf, hw, hwf, hfin, rfl⟩
  · obtain ⟨g, f, s, result, hprod, hlast, hout, hs⟩ := entry_origin hp
    have hfj := hprod.1
    refine ⟨g, f, s, result, by omega, hprod.2.1, hout, Or.inr ⟨hans, hprod, hlast, ?_⟩⟩
    intro v hv
    rw [hs v hv]
    exact Nat.le_of_not_lt fun hlt => hexp (Entry.expired_iff.mpr hlt)
  · exact ⟨g, f, s, result, hf, hfin, rfl, Or.inl ⟨ha.lt_of_waits hwf, hw⟩⟩

/-- A load that is not intact leaves the entries as they are. -/
theorem Finishes.peek_of_not_intact (h : E.Finishes k g s result n) (hg : ¬ E.Intact k g n) :
    (E.state (n + 1)).cache.peek k' = (E.state n).cache.peek k' := by
  apply Option.ext
  intro e
  rw [h.peek_succ]
  constructor
  · rintro (⟨rfl, hl, -⟩ | ⟨hp, -⟩)
    · exact (hg hl.1).elim
    · exact hp
  · intro hp
    refine Or.inr ⟨hp, ?_⟩
    rintro rfl hl
    exact (hg hl.1).elim

/-- For any interleaving, a call that decides after an invalidation of its key is told the outcome of
a loader call that began after it; the value and the failure of a stored entry come from loads
registered after the last invalidation; a load registered before an invalidation leaves the entries
as they are, and no later call goes with it. -/
theorem no_read_before_invalidation (E : Execution κ ν policy) (k : κ) :
    (∀ c i j n time answer, E.Invalidates k i → i < j → E.Asks c k time j → E.Answered c k answer n →
      ∃ g b f s result, i < b ∧ b < f ∧ f < n ∧ E.Begins k g b ∧ E.Finishes k g s result f ∧
        answer = outcome k result ∧
        (E.Waits c k g (j + 1) ∨ f < j ∧ E.Intact k g j ∧ E.Latest k result f j)) ∧
    (∀ n e, (E.state n).cache.peek k = some e →
      (∀ v, e.value = some v →
        ∃ g f s, f < n ∧ E.Finishes k g s (some (.ok v)) f ∧ E.Intact k g n) ∧
      ∀ error, e.failure = some error →
        ∃ g f s, f < n ∧ E.Finishes k g s (some (.error error)) f ∧ E.Intact k g n) ∧
    ∀ g q i, E.Registers k g q → q < i → E.Invalidates k i →
      (∀ f s result k', i < f → E.Finishes k g s result f →
        (E.state (f + 1)).cache.peek k' = (E.state f).cache.peek k') ∧
      ∀ c j, i < j → ¬ E.Joins c k g j := by
  refine ⟨?_, ?_, ?_⟩
  · intro c i j n time answer hi hij ha hans
    obtain ⟨g, f, s, result, hfn, hfin, hout, hcase⟩ := hans.source ha
    obtain ⟨b, hbf, hbegin⟩ := hfin.begun
    rcases hcase with ⟨hjf, hw⟩ | ⟨-, ⟨hfj, -, hg⟩, hlast, -⟩
    · have hg := (hw.live ha).1
      have hib := hg.lt_begins hi (by omega) hbegin
      exact ⟨g, b, f, s, result, hib, hbf, hfn, hbegin, hfin, hout, Or.inl hw⟩
    · have hib := hg.lt_begins hi hij hbegin
      exact ⟨g, b, f, s, result, hib, hbf, hfn, hbegin, hfin, hout, Or.inr ⟨hfj, hg, hlast⟩⟩
  · intro n e hp
    constructor
    · intro v hv
      obtain ⟨g, f, ⟨hfn, hfin, hg⟩, -⟩ := value_origin hp hv
      exact ⟨g, f, e.loadedAt, hfn, hfin, hg⟩
    · intro error he
      obtain ⟨g, f, s, ⟨hfn, hfin, hg⟩, -⟩ := failure_origin hp he
      exact ⟨g, f, s, hfn, hfin, hg⟩
  · intro g q i hr hqi hi
    constructor
    · intro f s result k' hif hfin
      exact hfin.peek_of_not_intact (not_intact hr hqi hi hif)
    · intro c j hij hj
      exact not_intact hr hqi hi (by omega) hj.live.1

/-- The second call comes after the invalidation, while the invalidated load runs. -/
theorem no_read_before_invalidation_sample :
    sample.Invalidates 0 2 ∧ sample.Asks 1 0 ⟨1, 0⟩ 3 ∧ sample.Answered 1 0 (.ok 8) 10 ∧
      (∃ g b f s result, 2 < b ∧ b < f ∧ f < 10 ∧ sample.Begins 0 g b ∧
        sample.Finishes 0 g s result f ∧ Except.ok 8 = outcome 0 result ∧
        (sample.Waits 1 0 g 4 ∨ f < 3 ∧ sample.Intact 0 g 3 ∧ sample.Latest 0 result f 3)) ∧
      (∃ g f s, f < 9 ∧ sample.Finishes 0 g s (some (.ok 8)) f ∧ sample.Intact 0 g 9) ∧
      (sample.state 6).cache.peek 0 = (sample.state 5).cache.peek 0 ∧ ¬ sample.Joins 1 0 0 3 :=
  have hi : sample.Invalidates 0 2 := Or.inl rfl
  have ha : sample.Asks 1 0 ⟨1, 0⟩ 3 := ⟨rfl, rfl⟩
  have hans : sample.Answered 1 0 (.ok 8) 10 := rfl
  have hr : sample.Registers 0 0 0 := ⟨_, rfl, rfl⟩
  have hf : sample.Finishes 0 0 ⟨2, 0⟩ (some (.ok 7)) 5 := ⟨rfl, rfl⟩
  have hp : (sample.state 9).cache.peek 0 = some (.loaded 8 ⟨3, 0⟩) := rfl
  have hall := no_read_before_invalidation sample 0
  have hspoiled := hall.2.2 0 0 2 hr (by decide) hi
  ⟨hi, ha, hans, hall.1 1 2 3 10 _ _ hi (by decide) ha hans, (hall.2.1 9 _ hp).1 8 rfl,
    hspoiled.1 5 _ _ 0 (by decide) hf, hspoiled.2 1 3 (by decide)⟩

/-- For any interleaving, a call that is told a value either waited, and its load succeeded with that
value no earlier than the call, or was answered at once with the value of the latest success of an
intact load, which is no older than the time to live and not followed by an invalidation. -/
theorem staleness_bound {v : ν} (ha : E.Asks c k time j) (hans : E.Answered c k (.ok v) n) :
    ∃ g f s, f < n ∧ E.Finishes k g s (some (.ok v)) f ∧
      (E.Waits c k g (j + 1) ∧ j < f ∧ time.elapsed ≤ s.elapsed ∨
        E.Answered c k (.ok v) (j + 1) ∧ f < j ∧ E.Live k g f ∧
          s.elapsed ≤ time.elapsed ∧ time.elapsed - s.elapsed ≤ policy.ttl.nanos ∧
          (∀ i, f < i → i < j → ¬ E.Invalidates k i) ∧
          ∀ g' f' s' v', f < f' → f' < j → E.Finishes k g' s' (some (.ok v')) f' →
            ¬ E.Live k g' f') := by
  obtain ⟨g, f, s, result, hfn, hfin, hout, hcase⟩ := hans.source ha
  obtain rfl := outcome_eq_ok hout
  refine ⟨g, f, s, hfn, hfin, ?_⟩
  rcases hcase with ⟨hjf, hw⟩ | ⟨hsince, hprod, hlast, hage⟩
  · have hclock := E.clock_mono (show j + 1 ≤ f from hjf)
    rw [ha.clock_succ] at hclock
    exact Or.inl ⟨hw, hjf, Nat.le_trans hclock hfin.time_le⟩
  · have hclock := E.clock_mono (show f + 1 ≤ j from hprod.1)
    rw [hfin.clock_succ] at hclock
    refine Or.inr ⟨hsince, hprod.1, hprod.live, Nat.le_trans hclock ha.time_le, hage v rfl, ?_, ?_⟩
    · intro i hfi hij hi
      exact hprod.not_invalidates hfi hij hi
    · intro g' f' s' v' hff hfj hfin' hl
      simpa [replaces] using hlast g' f' s' _ hff hfj hfin' hl

/-- The value is served up to the end of its time to live, though a refresh has failed meanwhile. -/
theorem staleness_bound_sample :
    sample.Asks 5 0 ⟨13, 0⟩ 15 ∧ sample.Answered 5 0 (.ok 8) 16 ∧
      sample.Finishes 0 2 ⟨12, 0⟩ (some (.error (.ofMessage "down"))) 14 ∧
      ∃ g f s, f < 16 ∧ sample.Finishes 0 g s (some (.ok 8)) f ∧
        (sample.Waits 5 0 g 16 ∧ 15 < f ∧ 13 ≤ s.elapsed ∨
          sample.Answered 5 0 (.ok 8) 16 ∧ f < 15 ∧ sample.Live 0 g f ∧
            s.elapsed ≤ 13 ∧ 13 - s.elapsed ≤ 10 ∧
            (∀ i, f < i → i < 15 → ¬ sample.Invalidates 0 i) ∧
            ∀ g' f' s' v', f < f' → f' < 15 → sample.Finishes 0 g' s' (some (.ok v')) f' →
              ¬ sample.Live 0 g' f') :=
  have ha : sample.Asks 5 0 ⟨13, 0⟩ 15 := ⟨rfl, rfl⟩
  have hans : sample.Answered 5 0 (.ok 8) 16 := rfl
  have hf : sample.Finishes 0 2 ⟨12, 0⟩ (some (.error (.ofMessage "down"))) 14 := ⟨rfl, rfl⟩
  ⟨ha, hans, hf, staleness_bound ha hans⟩

end RowReplay.Cache.Execution
