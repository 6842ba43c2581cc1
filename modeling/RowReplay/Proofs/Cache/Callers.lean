import RowReplay.Proofs.Cache.Entries

/-!
The course of a call. One that waits is answered with the outcome of its load's own call of the
loader: as long as it waits, no valid entry for its key stands in the cache, so a failure has no
earlier value to hand out.
-/
namespace RowReplay

theorem Entry.expired_iff {ν : Type} {e : Entry ν} {policy : FreshnessPolicy} {t : ClockReading} :
    e.freshness policy t = .expired ↔ policy.ttl.nanos < t.elapsed - e.loadedAt.elapsed := by
  unfold Entry.freshness Entry.age FreshnessPolicy.classify
  split
  case isTrue h => exact iff_of_true rfl h
  case isFalse h =>
    refine iff_of_false ?_ h
    split <;> simp

/-- An expired entry stays so. -/
theorem Entry.expired_mono {ν : Type} {e : Entry ν} {policy : FreshnessPolicy} {s t : ClockReading}
    (h : e.freshness policy s = .expired) (hst : s.elapsed ≤ t.elapsed) :
    e.freshness policy t = .expired := by
  rw [expired_iff] at h ⊢
  omega

namespace Cache

/-- What those who wait are told of a result. -/
def outcome {κ ν : Type} (k : κ) : LoadResult ν → Except (CacheError κ) ν
  | some (.ok v) => .ok v
  | some (.error e) => .error (.load k e)
  | none => .error (.abandoned k)

variable {κ ν : Type} {k k' : κ} {g i j m n : Nat}

theorem outcome_eq_ok {v : ν} {result : LoadResult ν} (h : .ok v = outcome k result) :
    result = some (.ok v) := by
  unfold outcome at h
  split at h <;> cases h
  rfl

theorem standingOf_eq_waiting {d : Decision ν} :
    standingOf k d = .waiting g ↔ d = .miss g := by
  cases d <;> simp [standingOf]

theorem standingOf_eq_answered {d : Decision ν} {answer : Except (CacheError κ) ν} :
    standingOf k d = .answered answer ↔
      ∃ e, (d = .hit e ∨ d = .staleHit e) ∧ answer = e.result k := by
  cases d <;> simp [standingOf, eq_comm]

theorem callers_setStanding {s : State κ ν} {caller : Caller κ ν} {standing : Standing κ ν}
    (h : (s.setStanding j standing).callers[i]? = some caller) :
    s.callers[i]? = some caller ∨ i = j ∧ caller.standing = standing ∧
      ∃ old, s.callers[i]? = some old ∧ old.key = caller.key := by
  simp only [State.setStanding, List.getElem?_modify, Option.map_eq_map] at h
  obtain ⟨old, hold, rfl⟩ := Option.map_eq_some_iff.mp h
  by_cases hij : j = i
  · exact Or.inr ⟨hij.symm, by simp [hij], old, hold, by simp [hij]⟩
  · exact Or.inl (by simp [hij, hold])

variable [DecidableEq κ]

theorem callers_ask {s : State κ ν} {caller : Caller κ ν} {time : ClockReading}
    (h : (s.ask k time).callers[i]? = some caller) :
    s.callers[i]? = some caller ∨ i = s.callers.length ∧
      caller = ⟨k, standingOf k (s.cache.request k time).2.1⟩ := by
  simp only [State.ask, List.getElem?_append] at h
  split at h
  · exact Or.inl h
  · have hlt := (List.getElem?_eq_some_iff.mp h).1
    simp only [List.length_singleton] at hlt
    have hi : i = s.callers.length := by omega
    refine Or.inr ⟨hi, ?_⟩
    simpa [hi, eq_comm] using h

namespace Execution

variable {policy : FreshnessPolicy} {E : Execution κ ν policy} {time time' : ClockReading}
  {result : LoadResult ν} {answer : Except (CacheError κ) ν} {entry : Option (Entry ν)}
  {e : Entry ν}

/-! Standing. -/

theorem waits_succ (h : E.Waits i k g (n + 1)) :
    E.Waits i k g n ∨
      ∃ time, E.Asks i k time n ∧ ((E.state n).cache.request k time).2.1 = .miss g := by
  cases he : E.event n with
  | none =>
    rw [Waits, E.pad n he] at h
    exact Or.inl h
  | some a =>
    have hs := E.step n a he
    simp only [Waits] at h ⊢
    generalize E.state (n + 1) = t at hs h
    cases hs with
    | get =>
      rcases callers_ask h with h | ⟨hi, hc⟩
      · exact Or.inl h
      · obtain ⟨rfl, hd⟩ := Caller.mk.inj hc
        exact Or.inr ⟨_, ⟨he, hi⟩, standingOf_eq_waiting.mp hd.symm⟩
    | cancel | answer =>
      rcases callers_setStanding h with h | ⟨-, hst, -⟩
      · exact Or.inl h
      · cases hst
    | _ => exact Or.inl h

theorem answered_succ (h : E.Answered i k answer (n + 1)) :
    E.Answered i k answer n ∨
      (∃ g entry, E.Waits i k g n ∧ (E.state n).cache.phaseOf g = some (.finished entry) ∧
        answer = Cache.answer k entry) ∨
      ∃ time e, E.Asks i k time n ∧ (E.state n).cache.peek k = some e ∧
        e.freshness policy time ≠ .expired ∧ answer = e.result k := by
  cases he : E.event n with
  | none =>
    rw [Answered, E.pad n he] at h
    exact Or.inl h
  | some a =>
    have hs := E.step n a he
    simp only [Answered] at h ⊢
    generalize E.state (n + 1) = t at hs h
    cases hs with
    | get =>
      rcases callers_ask h with h | ⟨hi, hc⟩
      · exact Or.inl h
      · obtain ⟨rfl, hd⟩ := Caller.mk.inj hc
        obtain ⟨e, hserved, ha⟩ := standingOf_eq_answered.mp hd.symm
        obtain ⟨hp, hf⟩ := served hserved
        rw [E.policy_eq] at hf
        exact Or.inr (Or.inr ⟨_, e, ⟨he, hi⟩, hp, hf, ha⟩)
    | cancel =>
      rcases callers_setStanding h with h | ⟨-, hst, -⟩
      · exact Or.inl h
      · cases hst
    | answer hc hp =>
      rcases callers_setStanding h with h | ⟨rfl, hst, old, hold, hk⟩
      · exact Or.inl h
      · obtain rfl : _ = old := Option.some.inj (hc.symm.trans hold)
        obtain rfl := hk
        exact Or.inr (Or.inl ⟨_, _, hc, hp, Standing.answered.inj hst⟩)
    | _ => exact Or.inl h

theorem length_callers_mono (E : Execution κ ν policy) (h : m ≤ n) :
    (E.state m).callers.length ≤ (E.state n).callers.length := by
  induction h with
  | refl => exact Nat.le_refl _
  | @step n _ ih =>
    refine Nat.le_trans ih ?_
    cases he : E.event n with
    | none => exact Nat.le_of_eq (by rw [E.pad n he])
    | some a =>
      have hs := E.step n a he
      generalize E.state (n + 1) = t at hs ⊢
      cases hs <;> simp [State.ask, State.setStanding, State.complete]

theorem Asks.length_callers_lt (h : E.Asks i k time m) (hmn : m < n) :
    i < (E.state n).callers.length := by
  refine Nat.lt_of_lt_of_le ?_ (E.length_callers_mono hmn)
  have hs := E.step m _ h.1
  generalize E.state (m + 1) = t at hs ⊢
  cases hs with
  | get => simp [State.ask, h.2]

/-- A call is asked once. -/
theorem Asks.unique (hm : E.Asks i k time m) (hn : E.Asks i k' time' n) :
    m = n ∧ k = k' ∧ time = time' := by
  rcases Nat.lt_trichotomy m n with h | rfl | h
  · have := hm.length_callers_lt h
    rw [← hn.2] at this
    omega
  · have hev := hm.1.symm.trans hn.1
    simp only [Option.some.injEq, Action.get.injEq] at hev
    exact ⟨rfl, hev⟩
  · have := hn.length_callers_lt h
    rw [← hm.2] at this
    omega

theorem Asks.decided (h : E.Asks i k time n) (hd : ((E.state n).cache.request k time).2.1 = .miss g) :
    E.Waits i k g (n + 1) := by
  have hs := E.step n _ h.1
  simp only [Waits]
  generalize E.state (n + 1) = t at hs ⊢
  cases hs with
  | get => simp [State.ask, h.2, hd, standingOf]

/-- Who waits has asked, and missed. -/
theorem Waits.origin (h : E.Waits i k g n) :
    ∃ j time, j < n ∧ E.Asks i k time j ∧ ((E.state j).cache.request k time).2.1 = .miss g ∧
      ∀ m, j < m → m ≤ n → E.Waits i k g m := by
  induction n with
  | zero => simp [Waits, E.initial, State.initial] at h
  | succ n ih =>
    rcases waits_succ h with hw | ⟨time, ha, hd⟩
    · obtain ⟨j, time, hj, ha, hd, hall⟩ := ih hw
      refine ⟨j, time, by omega, ha, hd, ?_⟩
      intro m hjm hmn
      rcases Nat.le_succ_iff.mp hmn with hmn | rfl
      · exact hall m hjm hmn
      · exact h
    · refine ⟨n, time, by omega, ha, hd, ?_⟩
      intro m hjm hmn
      obtain rfl : m = n + 1 := by omega
      exact h

theorem Asks.lt_of_waits (ha : E.Asks i k' time m) (hw : E.Waits i k g n) : m < n := by
  refine Decidable.of_not_not fun hle => ?_
  have hi := (List.getElem?_eq_some_iff.mp hw).1
  have hmono := E.length_callers_mono (show n ≤ m by omega)
  rw [ha.2] at hi
  omega

theorem Asks.cache_succ (h : E.Asks i k time n) :
    (E.state (n + 1)).cache = ((E.state n).cache.request k time).1 := by
  have hs := E.step n _ h.1
  generalize E.state (n + 1) = t at hs ⊢
  cases hs
  rfl

theorem Asks.clock_succ (h : E.Asks i k time n) : (E.state (n + 1)).clock = time := by
  have hs := E.step n _ h.1
  generalize E.state (n + 1) = t at hs ⊢
  cases hs
  rfl

theorem Asks.time_le (h : E.Asks i k time n) : (E.state n).clock.elapsed ≤ time.elapsed := by
  have hs := E.step n _ h.1
  generalize E.state (n + 1) = t at hs
  cases hs with
  | get ht => exact ht

/-- A call goes with a live load. -/
theorem Joins.live (h : E.Joins i k g n) : E.Live k g (n + 1) := by
  obtain ⟨time, ha, hd, rfl⟩ := h
  rw [live_iff, ha.cache_succ]
  exact (joined hd).1

/-- A call that missed goes with the load that it waits for. -/
theorem Asks.joins (h : E.Asks i k time n)
    (hd : ((E.state n).cache.request k time).2.1 = .miss g) : E.Joins i k g n :=
  ⟨time, h, by simp [hd], (missed hd).1⟩

/-! The load that a call waits for. -/

theorem Live.key (h : E.Live k g n) : (E.state n).cache.keyOf g = some k := by
  obtain ⟨⟨q, hq, hr, -⟩, -⟩ := h
  exact registered_iff.mpr ⟨q, hq, hr⟩

theorem Live.unfinished (h : E.Live k g n) : ¬ (E.state n).cache.Finished g :=
  ((E.chained n).slot k g false (live_iff.mp h)).2.1

theorem Waits.live (h : E.Waits i k g m) (ha : E.Asks i k' time n) : E.Live k g (n + 1) := by
  obtain ⟨j, time', -, ha', hd, -⟩ := h.origin
  obtain ⟨rfl, -⟩ := ha.unique ha'
  exact (ha'.joins hd).live

theorem Waits.key (h : E.Waits i k g n) : (E.state n).cache.keyOf g = some k := by
  obtain ⟨j, time, hj, ha, hd, -⟩ := h.origin
  exact keyOf_mono (ha.joins hd).live.key hj

/-- While an older load of its key is unfinished, a load that runs is not live. -/
theorem Finishes.not_live (hf : E.Finishes k g' time result n)
    (hk : (E.state n).cache.keyOf g = some k) (hg : ¬ (E.state n).cache.Finished g)
    (hne : g ≠ g') : ¬ E.Live k g' n := by
  intro hl
  have hle := ((E.chained n).slot k g' false (live_iff.mp hl)).2.2 g hk
  exact hg ((E.chained n).called k g' hf.2 (Or.inl hf.running) g (by omega) hk)

/-- As long as a call waits for a load that has not finished, its key has no valid entry. -/
theorem Waits.expired (h : E.Waits i k g n) (hg : ¬ (E.state n).cache.Finished g)
    (hp : (E.state n).cache.peek k = some e) :
    e.freshness policy (E.state n).clock = .expired := by
  induction n generalizing e with
  | zero => simp [Waits, E.initial, State.initial] at h
  | succ n ih =>
    rcases waits_succ h with hw | ⟨time, ha, hd⟩
    · have hgn : ¬ (E.state n).cache.Finished g := fun hf => hg (finished_mono hf (by omega))
      rcases peek_succ.mp hp with ⟨g', time, result, hl, hf, -⟩ | ⟨hp, -, -⟩
      · refine (hf.not_live hw.key hgn ?_ hl).elim
        rintro rfl
        exact hg (finished_succ.mpr (Or.inr ⟨k, time, result, hf⟩))
      · exact Entry.expired_mono (ih hw hgn hp) (E.clock_succ n)
    · rw [ha.cache_succ, peek_request] at hp
      rw [ha.clock_succ]
      have hexp := (missed hd).2 e hp
      rwa [E.policy_eq] at hexp

/-- A failure over no valid entry is told as it is. -/
theorem answer_entryOf {c : Cache κ ν}
    (h : ∀ e, c.peek k = some e → e.freshness c.policy time = .expired) :
    Cache.answer k (c.entryOf k time result) = outcome k result := by
  cases hm : c.entryOf k time result with
  | none =>
    obtain rfl := entryOf_eq_none_iff.mp hm
    rfl
  | some e =>
    cases making hm with
    | loaded => rfl
    | kept he _ hf => exact (hf (h _ he)).elim
    | failed => rfl

theorem phaseOf_succ (h : (E.state n).cache.phaseOf g = some (.finished entry)) :
    (E.state (n + 1)).cache.phaseOf g = some (.finished entry) := by
  cases he : E.event n with
  | none => rwa [E.pad n he]
  | some a =>
    have hs := E.step n a he
    generalize E.state (n + 1) = t at hs ⊢
    cases hs with
    | get =>
      obtain ⟨load, hl, -⟩ := Option.map_eq_some_iff.mp h
      exact (phaseOf_request (List.getElem?_eq_some_iff.mp hl).1).trans h
    | @begin g' load hl hq =>
      have hph := (lookups hl).2.2
      have hne : g ≠ g' := by
        rintro rfl
        simp [hph, hq] at h
      simp [Cache.begin, hne, h]
    | @finish g' load _ _ hl hr =>
      have hph := (lookups hl).2.2
      have hne : g ≠ g' := by
        rintro rfl
        simp [hph, hr] at h
      simp [State.complete, hne, h]
    | _ => exact h

/-- A finished load keeps its entry for those who wait. -/
theorem Finishes.phase (h : E.Finishes k g time result m) (hmn : m < n) :
    (E.state n).cache.phaseOf g =
      some (.finished ((E.state m).cache.entryOf k time result)) := by
  induction hmn with
  | refl => simp [h.cache_succ, h.running]
  | step _ ih => exact phaseOf_succ ih

/-- A load that finishes makes an entry that answers the outcome of its own call of the loader. -/
theorem Waits.answer_entryOf (h : E.Waits i k g n) (hfin : E.Finishes k g time result n) :
    Cache.answer k ((E.state n).cache.entryOf k time result) = outcome k result := by
  apply Execution.answer_entryOf
  intro e he
  rw [E.policy_eq]
  exact Entry.expired_mono (h.expired hfin.unfinished he) hfin.time_le

/-- The answer of a finished load to a call that waits for it: the outcome of that load's own call of
the loader. -/
theorem Waits.answer_eq (h : E.Waits i k g n)
    (hp : (E.state n).cache.phaseOf g = some (.finished entry)) :
    ∃ f time result, f < n ∧ E.Finishes k g time result f ∧ E.Waits i k g f ∧
      Cache.answer k entry = outcome k result := by
  obtain ⟨f, hf, k', time, result, hfin⟩ := finished_iff.mp ⟨entry, hp⟩
  obtain rfl := key_unique hfin.2 h.key
  obtain ⟨j, time', hj, ha, hd, hall⟩ := h.origin
  -- The load was unfinished when the call went with it, so the call waited when it finished.
  have hjf : j < f := by
    refine Decidable.of_not_not fun hle => ?_
    exact (ha.joins hd).live.unfinished (finished_iff.mpr ⟨f, by omega, k', time, result, hfin⟩)
  have hw := hall f hjf (by omega)
  refine ⟨f, time, result, hf, hfin, hw, ?_⟩
  obtain rfl : _ = entry := by simpa [hfin.phase hf] using hp
  exact hw.answer_entryOf hfin

/-- A call is answered at once from a valid entry, or it has waited and is told its load's outcome. -/
theorem Answered.origin (h : E.Answered i k answer n) :
    ∃ j time, j < n ∧ E.Asks i k time j ∧
      ((∃ e, (E.state j).cache.peek k = some e ∧ e.freshness policy time ≠ .expired ∧
          answer = e.result k ∧ E.Answered i k answer (j + 1)) ∨
        ∃ g f time' result, f < n ∧ E.Waits i k g (j + 1) ∧ E.Waits i k g f ∧
          E.Finishes k g time' result f ∧ answer = outcome k result) := by
  induction n with
  | zero => simp [Answered, E.initial, State.initial] at h
  | succ n ih =>
    rcases answered_succ h with ho | ⟨g, entry, hw, hp, rfl⟩ | ⟨time, e, ha, hp, hf, rfl⟩
    · obtain ⟨j, time, hj, ha, hcase⟩ := ih ho
      refine ⟨j, time, by omega, ha, hcase.imp_right ?_⟩
      rintro ⟨g, f, time', result, hf, hrest⟩
      exact ⟨g, f, time', result, by omega, hrest⟩
    · obtain ⟨f, time', result, hf, hfin, hwf, hout⟩ := hw.answer_eq hp
      obtain ⟨j, time, hj, ha, hd, -⟩ := hw.origin
      exact ⟨j, time, by omega, ha,
        Or.inr ⟨g, f, time', result, by omega, ha.decided hd, hwf, hfin, hout⟩⟩
    · exact ⟨n, time, by omega, ha, Or.inl ⟨e, hp, hf, rfl, h⟩⟩

/-- A call that has waited, and has been answered, waited until its load finished. -/
theorem Waits.until_finished (h : E.Waits i k g m) (hans : E.Answered i k answer n) :
    ∃ f time result, f < n ∧ E.Finishes k g time result f ∧ E.Waits i k g f ∧
      answer = outcome k result := by
  obtain ⟨j, time, hj, ha, -, hall⟩ := h.origin
  have hwj := hall (j + 1) (by omega) hj
  obtain ⟨j', time', -, ha', hcase⟩ := hans.origin
  obtain ⟨rfl, -, -⟩ := ha.unique ha'
  rcases hcase with ⟨e, -, -, -, hans'⟩ | ⟨g', f, s, result, hfn, hw', hwf, hfin, hout⟩
  · have hno := hans'.symm.trans hwj
    simp at hno
  · obtain rfl : g' = g := by simpa using hw'.symm.trans hwj
    exact ⟨f, s, result, hfn, hfin, hwf, hout⟩

end Execution

end Cache

end RowReplay
