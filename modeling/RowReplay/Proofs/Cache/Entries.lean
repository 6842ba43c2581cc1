import RowReplay.Proofs.Cache.History

/-!
Where the entry of a key comes from. Its value is that of the last live load that succeeded, and its
failure that of a live load that failed, both registered after the key's last invalidation.
-/
namespace RowReplay.Cache.Execution

variable {κ ν : Type} [DecidableEq κ] {policy : FreshnessPolicy} {E : Execution κ ν policy}
  {k k' : κ} {f g i n : Nat} {time : ClockReading} {result : LoadResult ν} {e : Entry ν}

/-- A live load puts its entry into the cache, and another one leaves what is there. -/
theorem Finishes.peek_succ (h : E.Finishes k' g time result n) :
    (E.state (n + 1)).cache.peek k = some e ↔
      (k' = k ∧ E.Live k g n ∧ (E.state n).cache.entryOf k time result = some e) ∨
      (E.state n).cache.peek k = some e ∧ (k' = k → E.Live k g n → result = none) := by
  have hcur : (E.state n).cache.isCurrent k' g = true ↔ E.Live k' g n :=
    isCurrent_iff.trans live_iff.symm
  rw [h.cache_succ, peek_complete]
  by_cases hc : k = k' ∧ (E.state n).cache.isCurrent k' g = true
  · rw [if_pos hc]
    obtain ⟨rfl, hlive⟩ := hc
    rw [hcur] at hlive
    cases hmade : (E.state n).cache.entryOf k time result with
    | none => simp [hlive, entryOf_eq_none_iff.mp hmade]
    | some made =>
      have hr : result ≠ none := by
        rintro rfl
        simp [entryOf] at hmade
      simp [hlive, hr]
  · rw [if_neg hc]
    have hother : k' = k → ¬ E.Live k g n := by
      rintro rfl hlive
      exact hc ⟨rfl, hcur.mpr hlive⟩
    constructor
    · exact fun hp => Or.inr ⟨hp, fun hk hlive => (hother hk hlive).elim⟩
    · rintro (⟨hk, hlive, -⟩ | ⟨hp, -⟩)
      · exact (hother hk hlive).elim
      · exact hp

/-- An entry stays, or a live load of its key puts it there. -/
theorem peek_succ :
    (E.state (n + 1)).cache.peek k = some e ↔
      (∃ g time result, E.Live k g n ∧ E.Finishes k g time result n ∧
        (E.state n).cache.entryOf k time result = some e) ∨
      (E.state n).cache.peek k = some e ∧ ¬ E.Invalidates k n ∧
        ∀ g time result, E.Live k g n → E.Finishes k g time result n → result = none := by
  cases he : E.event n with
  | none => simp [E.pad n he, Invalidates, Finishes, he]
  | some a =>
    have hs := E.step n a he
    generalize ht : E.state (n + 1) = t at hs ⊢
    cases hs with
    | get =>
      simp only [State.ask, peek_request]
      simp [Invalidates, Finishes, he]
    | @finish g load time result hl =>
      have hf : E.Finishes load.key g time result n := ⟨he, (lookups hl).1⟩
      rw [← ht, hf.peek_succ]
      refine or_congr ?_ (and_congr_right fun _ => ?_)
      · constructor
        · rintro ⟨rfl, hlive, hm⟩
          exact ⟨g, time, result, hlive, hf, hm⟩
        · rintro ⟨g', time', result', hlive, hf', hm⟩
          obtain ⟨rfl, rfl, rfl, rfl⟩ := hf.same hf'
          exact ⟨rfl, hlive, hm⟩
      · constructor
        · intro hnone
          refine ⟨by simp [Invalidates, he], ?_⟩
          intro g' time' result' hlive hf'
          obtain ⟨rfl, rfl, rfl, rfl⟩ := hf.same hf'
          exact hnone rfl hlive
        · rintro ⟨-, hnone⟩ rfl hlive
          exact hnone g time result hlive hf
    | @invalidate k' =>
      by_cases hk : k = k'
      · simp [Invalidates, Finishes, he, hk]
      · simp [Invalidates, Finishes, he, hk, Ne.symm hk]
    | invalidateAll => simp [Invalidates, Finishes, he]
    | _ => simp [Invalidates, Finishes, he, State.setStanding]

/-- The load finished at step `f` and is still intact. -/
def Produces (E : Execution κ ν policy) (k : κ) (g : Nat) (time : ClockReading)
    (result : LoadResult ν) (f n : Nat) : Prop :=
  f < n ∧ E.Finishes k g time result f ∧ E.Intact k g n

theorem Produces.of_live (hl : E.Live k g n) (hf : E.Finishes k g time result n) :
    E.Produces k g time result n (n + 1) :=
  ⟨by omega, hf, intact_succ.mpr (Or.inr ⟨hl.1, hf.not_invalidates⟩)⟩

theorem Produces.succ (h : E.Produces k g time result f n) (hi : ¬ E.Invalidates k n) :
    E.Produces k g time result f (n + 1) := by
  obtain ⟨hfn, hf, hg⟩ := h
  exact ⟨by omega, hf, intact_succ.mpr (Or.inr ⟨hg, hi⟩)⟩

theorem Produces.live (h : E.Produces k g time result f n) : E.Live k g f := by
  obtain ⟨hfn, hf, hg⟩ := h
  refine ⟨hg.earlier hf.2 (by omega), ?_⟩
  intro f' time' result' hff hf'
  have := (hf.unique hf').1
  omega

/-- The key is not invalidated after the load has finished. -/
theorem Produces.not_invalidates (h : E.Produces k g time result f n) (hfi : f < i) (hin : i < n) :
    ¬ E.Invalidates k i := by
  obtain ⟨-, hf, hg⟩ := h
  obtain ⟨b, hb, hbegin⟩ := hf.begun
  intro hi
  have := hg.lt_begins hi hin hbegin
  omega

/-- A crash leaves an earlier result in its place, and a failure leaves an earlier value. -/
def replaces : LoadResult ν → LoadResult ν → Bool
  | none, _ => false
  | some (.ok _), _ => true
  | some (.error _), some (.ok _) => false
  | some (.error _), _ => true

/-- No live load of the key has finished since step `f` with a result that replaces this one. -/
def Latest (E : Execution κ ν policy) (k : κ) (result : LoadResult ν) (f n : Nat) : Prop :=
  ∀ g f' time later, f < f' → f' < n → E.Finishes k g time later f' → E.Live k g f' →
    replaces later result = false

theorem Latest.last (E : Execution κ ν policy) (k : κ) (result : LoadResult ν) (n : Nat) :
    E.Latest k result n (n + 1) := by
  intro g f time later hn hf
  omega

theorem Latest.succ (h : E.Latest k result f n)
    (hl : ∀ g time later, E.Live k g n → E.Finishes k g time later n →
      replaces later result = false) : E.Latest k result f (n + 1) := by
  intro g f' time later hff hfn hf' hl'
  rcases Nat.lt_succ_iff_lt_or_eq.mp hfn with hfn | rfl
  · exact h g f' time later hff hfn hf' hl'
  · exact hl g time later hl' hf'

/-- A stored value is that of the last live load that succeeded, whose time it bears. -/
theorem value_origin {v : ν} (hp : (E.state n).cache.peek k = some e) (hv : e.value = some v) :
    ∃ g f, E.Produces k g e.loadedAt (some (.ok v)) f n ∧ E.Latest k (some (.ok v)) f n := by
  induction n generalizing e with
  | zero => simp [E.initial, State.initial, Cache.empty, peek] at hp
  | succ n ih =>
    rcases peek_succ.mp hp with ⟨g, time, result, hl, hf, hm⟩ | ⟨hp, hi, hnone⟩
    · cases making hm with
      | loaded =>
        obtain rfl : _ = v := Option.some.inj hv
        exact ⟨g, n, .of_live hl hf, .last E k _ n⟩
      | kept hold =>
        obtain ⟨g', f, hprod, hlast⟩ := ih hold hv
        refine ⟨g', f, hprod.succ hf.not_invalidates, hlast.succ ?_⟩
        intro g'' time' later _ hf'
        obtain ⟨-, -, -, rfl⟩ := hf.same hf'
        rfl
      | failed => simp [Entry.failed] at hv
    · obtain ⟨g', f, hprod, hlast⟩ := ih hp hv
      refine ⟨g', f, hprod.succ hi, hlast.succ ?_⟩
      intro g'' time' later hl' hf'
      rw [hnone g'' time' later hl' hf']
      rfl

/-- A stored failure is that of the last live load that did not crash. -/
theorem failure_origin {error : LoadError} (hp : (E.state n).cache.peek k = some e)
    (hv : e.failure = some error) :
    ∃ g f time, E.Produces k g time (some (.error error)) f n ∧
      E.Latest k (some (.error error)) f n := by
  induction n generalizing e with
  | zero => simp [E.initial, State.initial, Cache.empty, peek] at hp
  | succ n ih =>
    rcases peek_succ.mp hp with ⟨g, time, result, hl, hf, hm⟩ | ⟨hp, hi, hnone⟩
    · cases making hm with
      | loaded => simp [Entry.loaded] at hv
      | kept | failed =>
        obtain rfl : _ = error := Option.some.inj hv
        exact ⟨g, n, time, .of_live hl hf, .last E k _ n⟩
    · obtain ⟨g', f, time, hprod, hlast⟩ := ih hp hv
      refine ⟨g', f, time, hprod.succ hi, hlast.succ ?_⟩
      intro g'' time' later hl' hf'
      rw [hnone g'' time' later hl' hf']
      rfl

/-- A stored entry has something to say. -/
theorem entry_filled (hp : (E.state n).cache.peek k = some e) : e.value.isSome ∨ e.failure.isSome := by
  induction n generalizing e with
  | zero => simp [E.initial, State.initial, Cache.empty, peek] at hp
  | succ n ih =>
    rcases peek_succ.mp hp with ⟨g, time, result, hl, hf, hm⟩ | ⟨hp, -, -⟩
    · cases making hm with
      | loaded => exact Or.inl rfl
      | kept => exact Or.inr rfl
      | failed => exact Or.inr rfl
    · exact ih hp

end RowReplay.Cache.Execution
