import RowReplay.Proofs.Cache.Slots

/-!
The entries of a key, one after the other. A load over an entry is registered by a call that does not
find that entry fresh, so strictly after its load time, however short the load itself is: what it
makes is younger, or it is the same entry marked by a failure.
-/
namespace RowReplay

namespace Entry

variable {ν : Type}

theorem fresh_iff {e : Entry ν} {policy : FreshnessPolicy} {t : ClockReading} :
    e.freshness policy t = .fresh ↔
      t.elapsed - e.loadedAt.elapsed ≤ min policy.refreshAfter.nanos policy.ttl.nanos := by
  rw [Nat.le_min]
  unfold freshness age FreshnessPolicy.classify
  split
  case isTrue h => exact iff_of_false nofun fun hle => Nat.not_lt.mpr hle.2 h
  case isFalse h =>
    split
    case isTrue h' => exact iff_of_false nofun fun hle => Nat.not_lt.mpr hle.1 h'
    case isFalse h' => exact iff_of_true rfl ⟨Nat.not_lt.mp h', Nat.not_lt.mp h⟩

/-- What a result makes of itself, with the time of its load. -/
def ofResult : Except LoadError ν → ClockReading → Entry ν
  | .ok value, now => .loaded value now
  | .error error, now => .failed error now

@[simp] theorem loadedAt_ofResult (r : Except LoadError ν) (now : ClockReading) :
    (ofResult r now).loadedAt = now := by
  cases r <;> rfl

/-- What a load that ends with a result at a time makes over an entry: the same entry, marked by the
failure as long as its value is valid, or a strictly younger one. -/
inductive Follows (policy : FreshnessPolicy) (e : Entry ν) (now : ClockReading) :
    Except LoadError ν → Entry ν → Prop
  | refreshFailed {error : LoadError} (hv : e.value.isSome)
    (hage : now.elapsed - e.loadedAt.elapsed ≤ policy.ttl.nanos) :
    Follows policy e now (.error error) (e.failedRefresh error)
  | younger {r : Except LoadError ν} (h : e.loadedAt.elapsed < now.elapsed) :
    Follows policy e now r (ofResult r now)

end Entry

namespace Cache.Execution

variable {κ ν : Type} [DecidableEq κ] {policy : FreshnessPolicy} {E : Execution κ ν policy}
  {c g j m n q : Nat} {k : κ} {s time : ClockReading} {result : LoadResult ν} {e e' : Entry ν}
  {r : Except LoadError ν} {v : ν}

/-! Times. -/

/-- No entry is from the future. -/
theorem loadedAt_le_clock (hp : (E.state n).cache.peek k = some e) :
    e.loadedAt.elapsed ≤ (E.state n).clock.elapsed := by
  induction n generalizing e with
  | zero => simp [E.initial, State.initial, Cache.empty, peek] at hp
  | succ n ih =>
    rcases peek_succ.mp hp with ⟨g, s, result, -, hf, hm⟩ | ⟨hp, -, -⟩
    · cases making hm with
      | loaded | failed =>
        rw [hf.clock_succ]
        exact Nat.le_refl _
      | @kept _ old hold =>
        have hle : old.loadedAt.elapsed ≤ _ := ih hold
        exact Nat.le_trans hle (E.clock_succ n)
    · exact Nat.le_trans (ih hp) (E.clock_succ n)

/-- The load time of a key's entry never decreases, also where the key has been invalidated. -/
theorem loadedAt_mono (hmn : m ≤ n) (hp : (E.state m).cache.peek k = some e)
    (hp' : (E.state n).cache.peek k = some e') : e.loadedAt.elapsed ≤ e'.loadedAt.elapsed := by
  induction hmn generalizing e' with
  | refl =>
    obtain rfl : e = e' := Option.some.inj (hp.symm.trans hp')
    exact Nat.le_refl _
  | @step n hmn ih =>
    rcases peek_succ.mp hp' with ⟨g, s, result, -, hf, hm⟩ | ⟨hp', -, -⟩
    · cases making hm with
      | loaded | failed =>
        exact Nat.le_trans (loadedAt_le_clock hp) (Nat.le_trans (E.clock_mono hmn) hf.time_le)
      | @kept _ old hold =>
        have hle : e.loadedAt.elapsed ≤ old.loadedAt.elapsed := ih hold
        exact hle
    · exact ih hp'

/-! A load over an entry. -/

theorem Registers.peek_succ (h : E.Registers k g n) :
    (E.state (n + 1)).cache.peek k = (E.state n).cache.peek k := by
  obtain ⟨time, he, -⟩ := h
  have ha : E.Asks _ k time n := ⟨he, rfl⟩
  rw [ha.cache_succ, peek_request]

/-- As long as a load is live, its key keeps the entry that the load was registered over. -/
theorem Live.peek_eq (h : E.Live k g n) (hr : E.Registers k g q) :
    (E.state n).cache.peek k = (E.state q).cache.peek k := by
  induction n with
  | zero =>
    obtain ⟨⟨q', hq', -⟩, -⟩ := h
    omega
  | succ n ih =>
    rcases live_succ.mp h with hr' | ⟨hl, hi, hf⟩
    · obtain rfl := hr.unique hr'
      exact hr.peek_succ
    · rw [← ih hl]
      apply Option.ext
      intro e
      rw [Execution.peek_succ]
      constructor
      · rintro (⟨g', s, result, hl', hf', -⟩ | ⟨hp, -, -⟩)
        · exact (hf s result (hl.unique hl' ▸ hf')).elim
        · exact hp
      · intro hp
        refine Or.inr ⟨hp, hi, ?_⟩
        intro g' s result hl' hf'
        exact (hf s result (hl.unique hl' ▸ hf')).elim

/-- A call registers a load over an entry only when that entry is past its freshness. -/
theorem Registers.not_fresh (h : E.Registers k g q) (hp : (E.state q).cache.peek k = some e) :
    min policy.refreshAfter.nanos policy.ttl.nanos <
      (E.state (q + 1)).clock.elapsed - e.loadedAt.elapsed := by
  obtain ⟨time, he, hr⟩ := h
  have ha : E.Asks _ k time q := ⟨he, rfl⟩
  rw [ha.clock_succ, ← Nat.not_le, ← Entry.fresh_iff, ← E.policy_eq q]
  intro hf
  have hd := deciding (E.state q).cache k time
  generalize (E.state q).cache.request k time = decided at hd hr
  cases hd with
  | hit => cases hr
  | staleHit he' hf' =>
    obtain rfl : e = _ := Option.some.inj (hp.symm.trans he')
    rw [hf] at hf'
    cases hf'
  | miss hf' =>
    have := hf' e hp
    rw [hf] at this
    cases this

/-- A live load was registered strictly after the load time of the entry that it finds. -/
theorem Live.loadedAt_lt (h : E.Live k g n) (hp : (E.state n).cache.peek k = some e) :
    e.loadedAt.elapsed < (E.state n).clock.elapsed := by
  obtain ⟨q, hqn, hr, -⟩ := h.1
  have hpast := hr.not_fresh ((h.peek_eq hr).symm.trans hp)
  have hclock := E.clock_mono (show q + 1 ≤ n from hqn)
  omega

/-- What a live load that ends with a result puts in the place of an entry. -/
theorem Finishes.follows (hf : E.Finishes k g s (some r) n) (hl : E.Live k g n)
    (hp : (E.state n).cache.peek k = some e) :
    ∃ e', (E.state (n + 1)).cache.peek k = some e' ∧ e.Follows policy s r e' := by
  have hyounger := Nat.lt_of_lt_of_le (hl.loadedAt_lt hp) hf.time_le
  obtain ⟨e', hm⟩ : ∃ e', (E.state n).cache.entryOf k s (some r) = some e' := by
    rw [← Option.ne_none_iff_exists', Ne, entryOf_eq_none_iff]
    exact nofun
  refine ⟨e', hf.peek_succ.mpr (Or.inl ⟨rfl, hl, hm⟩), ?_⟩
  cases making hm with
  | loaded | failed => exact .younger hyounger
  | kept hold hv hage =>
    obtain rfl : e = _ := Option.some.inj (hp.symm.trans hold)
    rw [E.policy_eq, Ne, Entry.expired_iff, Nat.not_lt] at hage
    exact .refreshFailed hv hage

/-- An entry stays, or a live load puts another one in its place. -/
theorem peek_succ_of_some (hp : (E.state n).cache.peek k = some e)
    (hp' : (E.state (n + 1)).cache.peek k = some e') :
    e' = e ∧ (∀ g s r, E.Live k g n → ¬ E.Finishes k g s (some r) n) ∨
      ∃ g s r, E.Live k g n ∧ E.Finishes k g s (some r) n ∧ e.Follows policy s r e' := by
  rcases peek_succ.mp hp' with ⟨g, s, result, hl, hf, hm⟩ | ⟨hold, -, hnone⟩
  · cases result with
    | none => simp [entryOf] at hm
    | some r =>
      obtain ⟨made, hmade, hfollows⟩ := hf.follows hl hp
      obtain rfl : made = e' := Option.some.inj (hmade.symm.trans hp')
      exact Or.inr ⟨g, s, r, hl, hf, hfollows⟩
  · refine Or.inl ⟨Option.some.inj (hold.symm.trans hp), ?_⟩
    intro g s r hl hf
    exact absurd (hnone g s _ hl hf) (Option.some_ne_none r)

/-! Entries that loads have made. -/

/-- A finished load that has not crashed keeps an entry with something to say. -/
theorem handed_filled (h : (E.state n).cache.phaseOf g = some (.finished (some e))) :
    e.value.isSome ∨ e.failure.isSome := by
  obtain ⟨f, hfn, k, s, result, hf⟩ := finished_iff.mp ⟨_, h⟩
  have hm : (E.state f).cache.entryOf k s result = some e := by
    simpa [hf.phase hfn] using h
  cases making hm with
  | loaded => exact Or.inl rfl
  | kept => exact Or.inr rfl
  | failed => exact Or.inr rfl

/-- For any interleaving: every entry that is stored, or kept for those who wait, holds a value or a
failure, and who is told of a failed load is told a failure of the loader. Where a load puts an entry
in the place of another one, it is the same one with a new failure, its value still valid, or one of
its own result and strictly younger. So the load time of a key never decreases, and every load that
succeeds over an entry makes it strictly later than it has ever been. -/
theorem entry_history (E : Execution κ ν policy) (k : κ) :
    ((∀ n e, (E.state n).cache.peek k = some e → e.value.isSome ∨ e.failure.isSome) ∧
      (∀ n g e, (E.state n).cache.phaseOf g = some (.finished (some e)) →
        e.value.isSome ∨ e.failure.isSome) ∧
      ∀ n c key error, E.Answered c k (.error (.load key error)) n →
        key = k ∧ ∃ g f s, f < n ∧ E.Finishes k g s (some (.error error)) f) ∧
    (∀ n e e', (E.state n).cache.peek k = some e → (E.state (n + 1)).cache.peek k = some e' →
      e' = e ∧ (∀ g s r, E.Live k g n → ¬ E.Finishes k g s (some r) n) ∨
        ∃ g s r, E.Live k g n ∧ E.Finishes k g s (some r) n ∧ e.Follows policy s r e') ∧
    (∀ m n e e', m ≤ n → (E.state m).cache.peek k = some e →
      (E.state n).cache.peek k = some e' → e.loadedAt.elapsed ≤ e'.loadedAt.elapsed) ∧
    ∀ m n g s v e, m ≤ n → (E.state m).cache.peek k = some e →
      ((E.state n).cache.peek k).isSome → E.Live k g n → E.Finishes k g s (some (.ok v)) n →
      (E.state (n + 1)).cache.peek k = some (.loaded v s) ∧ e.loadedAt.elapsed < s.elapsed := by
  refine ⟨⟨?_, ?_, ?_⟩, ?_, ?_, ?_⟩
  · intro n e hp
    exact entry_filled hp
  · intro n g e h
    exact handed_filled h
  · intro n c key error hans
    obtain ⟨j, time, -, ha, -⟩ := hans.origin
    obtain ⟨g, f, s, result, hfn, hf, hout, -⟩ := hans.source ha
    obtain ⟨rfl, rfl⟩ : key = k ∧ result = some (.error error) := by
      unfold outcome at hout
      split at hout <;> cases hout
      exact ⟨rfl, rfl⟩
    exact ⟨rfl, g, f, s, hfn, hf⟩
  · intro n e e' hp hp'
    exact peek_succ_of_some hp hp'
  · intro m n e e' hmn hp hp'
    exact loadedAt_mono hmn hp hp'
  · intro m n g s v e hmn hp hsome hl hf
    obtain ⟨old, hold⟩ := Option.isSome_iff_exists.mp hsome
    obtain ⟨e', hp', hfollows⟩ := hf.follows hl hold
    cases hfollows with
    | younger hlt => exact ⟨hp', Nat.lt_of_le_of_lt (loadedAt_mono hmn hp hold) hlt⟩

/-- A refresh that takes no time at all succeeds at the first instant at which there can be one. -/
def instantRefresh : Execution Nat Nat ⟨⟨10⟩, ⟨5⟩⟩ :=
  .ofActions _
    [.get 0 ⟨0, 0⟩, .begin 0, .finish 0 ⟨0, 0⟩ (some (.ok 7)), .get 0 ⟨5, 0⟩, .get 0 ⟨6, 0⟩, .begin 1,
      .finish 1 ⟨6, 0⟩ (some (.ok 8))]
    (by decide)

/-- The refresh takes no time, and in the other run one fails while the value is valid. -/
theorem entry_history_sample :
    instantRefresh.Registers 0 1 4 ∧ instantRefresh.Finishes 0 1 ⟨6, 0⟩ (some (.ok 8)) 6 ∧
      (instantRefresh.state 7).cache.peek 0 = some (.loaded 8 ⟨6, 0⟩) ∧ 0 < 6 ∧
      ((failingRefreshes.state 9).cache.peek 0 = some (.loaded 7 ⟨0, 0⟩) ∧
        ∃ g s r, failingRefreshes.Live 0 g 9 ∧ failingRefreshes.Finishes 0 g s (some r) 9 ∧
          (Entry.loaded 7 ⟨0, 0⟩).Follows ⟨⟨10⟩, ⟨5⟩⟩ s r
            ((Entry.loaded 7 ⟨0, 0⟩).failedRefresh (.ofMessage "down"))) :=
  have hf : instantRefresh.Finishes 0 1 ⟨6, 0⟩ (some (.ok 8)) 6 := ⟨rfl, rfl⟩
  have hp : (instantRefresh.state 3).cache.peek 0 = some (.loaded 7 ⟨0, 0⟩) := rfl
  have hstrict := (entry_history instantRefresh 0).2.2.2 3 6 1 ⟨6, 0⟩ 8 _ (by decide) hp rfl
    (live_iff.mpr rfl) hf
  have hold : (failingRefreshes.state 9).cache.peek 0 = some (.loaded 7 ⟨0, 0⟩) := rfl
  have hstep := (entry_history failingRefreshes 0).2.1 9 _
    ((Entry.loaded 7 ⟨0, 0⟩).failedRefresh (.ofMessage "down")) hold rfl
  ⟨⟨⟨6, 0⟩, rfl, rfl⟩, hf, hstrict.1, hstrict.2, hold,
    hstep.resolve_left fun h => h.2 2 ⟨9, 0⟩ (.error (.ofMessage "down")) (live_iff.mpr rfl) ⟨rfl, rfl⟩⟩

end Cache.Execution

end RowReplay
