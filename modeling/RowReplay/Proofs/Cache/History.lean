import RowReplay.Proofs.Cache.Chain

/-! What happened in a run up to a step, and what the state at that step still shows of it. -/
namespace RowReplay.Cache.Execution

variable {κ ν : Type} [DecidableEq κ] {policy : FreshnessPolicy} (E : Execution κ ν policy)

/-- The `i`-th call reads the clock and decides. -/
def Asks (i : Nat) (k : κ) (time : ClockReading) (n : Nat) : Prop :=
  E.event n = some (.get k time) ∧ i = (E.state n).callers.length

/-- The `i`-th call goes with a load: it waits for it, or leaves it to the background. -/
def Joins (i : Nat) (k : κ) (g n : Nat) : Prop :=
  ∃ time, E.Asks i k time n ∧ (∀ e, ((E.state n).cache.request k time).2.1 ≠ .hit e) ∧
    ((E.state n).cache.joinOrStart k).2.1 = g

def Waits (i : Nat) (k : κ) (g n : Nat) : Prop :=
  (E.state n).callers[i]? = some ⟨k, .waiting g⟩

def Answered (i : Nat) (k : κ) (answer : Except (CacheError κ) ν) (n : Nat) : Prop :=
  (E.state n).callers[i]? = some ⟨k, .answered answer⟩

def Registers (k : κ) (g n : Nat) : Prop :=
  ∃ time, E.event n = some (.get k time) ∧ ((E.state n).cache.request k time).2.2 = some g

def Begins (k : κ) (g n : Nat) : Prop :=
  E.event n = some (.begin g) ∧ (E.state n).cache.keyOf g = some k

def Finishes (k : κ) (g : Nat) (time : ClockReading) (result : LoadResult ν) (n : Nat) : Prop :=
  E.event n = some (.finish g time result) ∧ (E.state n).cache.keyOf g = some k

def Invalidates (k : κ) (n : Nat) : Prop :=
  E.event n = some (.invalidate k) ∨ E.event n = some .invalidateAll

/-- A load registered after every invalidation of its key so far. -/
def Intact (k : κ) (g n : Nat) : Prop :=
  ∃ q, q < n ∧ E.Registers k g q ∧ ∀ i, i < n → E.Invalidates k i → i < q

/-- An intact load that has not finished. -/
def Live (k : κ) (g n : Nat) : Prop :=
  E.Intact k g n ∧ ∀ f time result, f < n → ¬ E.Finishes k g time result f

variable {E} {k k' : κ} {g g' i m n : Nat} {time : ClockReading} {result : LoadResult ν}

theorem registers_iff (he : E.event n = some (.get k' time)) :
    E.Registers k g n ↔ k' = k ∧ ((E.state n).cache.request k' time).2.2 = some g := by
  simp only [Registers, he, Option.some.injEq, Action.get.injEq]
  constructor
  · rintro ⟨time', ⟨rfl, rfl⟩, hr⟩
    exact ⟨rfl, hr⟩
  · rintro ⟨rfl, hr⟩
    exact ⟨time, ⟨rfl, rfl⟩, hr⟩

/-! One step. -/

theorem policy_eq (E : Execution κ ν policy) (n : Nat) : (E.state n).cache.policy = policy := by
  induction n with
  | zero =>
    rw [E.initial]
    rfl
  | succ n ih =>
    cases he : E.event n with
    | none => rw [E.pad n he, ih]
    | some a =>
      have hs := E.step n a he
      generalize E.state (n + 1) = t at hs ⊢
      cases hs with
      | get => exact (policy_request ..).trans ih
      | _ => exact ih

theorem clock_succ (E : Execution κ ν policy) (n : Nat) :
    (E.state n).clock.elapsed ≤ (E.state (n + 1)).clock.elapsed := by
  cases he : E.event n with
  | none => exact Nat.le_of_eq (by rw [E.pad n he])
  | some a =>
    have hs := E.step n a he
    generalize E.state (n + 1) = t at hs ⊢
    cases hs with
    | get ht => exact ht
    | finish _ _ ht => exact ht
    | _ => exact Nat.le_refl _

theorem clock_mono (E : Execution κ ν policy) (h : m ≤ n) :
    (E.state m).clock.elapsed ≤ (E.state n).clock.elapsed := by
  induction h with
  | refl => exact Nat.le_refl _
  | step _ ih => exact Nat.le_trans ih (E.clock_succ _)

theorem keyOf_succ :
    (E.state (n + 1)).cache.keyOf g = some k ↔
      (E.state n).cache.keyOf g = some k ∨ E.Registers k g n := by
  cases he : E.event n with
  | none => simp [E.pad n he, Registers, he]
  | some a =>
    have hs := E.step n a he
    generalize E.state (n + 1) = t at hs ⊢
    cases hs with
    | get => exact keyOf_request.trans (or_congr_right (registers_iff he).symm)
    | finish => simp [Registers, he, State.complete]
    | begin => simp [Registers, he]
    | _ => simp [Registers, he, State.setStanding, Cache.invalidate, Cache.invalidateAll, keyOf]

theorem called_succ :
    (E.state (n + 1)).cache.Called g ↔
      (E.state n).cache.Called g ∨ ∃ k : κ, E.Begins k g n := by
  cases he : E.event n with
  | none => simp [E.pad n he, Begins, he]
  | some a =>
    have hs := E.step n a he
    generalize E.state (n + 1) = t at hs ⊢
    cases hs with
    | get => exact called_request.trans (by simp [Begins, he])
    | begin hl hq =>
      obtain ⟨hk, -, hph⟩ := lookups hl
      rw [hq] at hph
      refine (called_begin hph).trans (or_congr_right ?_)
      constructor
      · rintro rfl
        exact ⟨_, he, hk⟩
      · rintro ⟨k, hb, -⟩
        simpa [he, eq_comm] using hb
    | finish hl hr =>
      have hph := (lookups hl).2.2
      rw [hr] at hph
      exact (called_complete hph).trans (by simp [Begins, he])
    | _ =>
      simp [Begins, he, State.setStanding, Cache.invalidate, Cache.invalidateAll, Called, Finished,
        phaseOf]

theorem finished_succ :
    (E.state (n + 1)).cache.Finished g ↔
      (E.state n).cache.Finished g ∨ ∃ k time result, E.Finishes k g time result n := by
  cases he : E.event n with
  | none => simp [E.pad n he, Finishes, he]
  | some a =>
    have hs := E.step n a he
    generalize E.state (n + 1) = t at hs ⊢
    cases hs with
    | get => exact finished_request.trans (by simp [Finishes, he])
    | begin hl hq =>
      have hph := (lookups hl).2.2
      rw [hq] at hph
      exact (finished_begin hph).trans (by simp [Finishes, he])
    | finish hl hr =>
      obtain ⟨hk, -, hph⟩ := lookups hl
      rw [hr] at hph
      refine (finished_complete hph).trans (or_congr_right ?_)
      constructor
      · rintro rfl
        exact ⟨_, _, _, he, hk⟩
      · rintro ⟨k, time, result, hf, -⟩
        obtain ⟨rfl, -⟩ := by simpa [he] using hf
        rfl
    | _ =>
      simp [Finishes, he, State.setStanding, Cache.invalidate, Cache.invalidateAll, Finished,
        phaseOf]

/-- A slot that is not invalidated stays so until its load finishes or its key is invalidated. -/
theorem slot_succ :
    (E.state (n + 1)).cache.pending.get? k = some ⟨g, false⟩ ↔
      E.Registers k g n ∨ (E.state n).cache.pending.get? k = some ⟨g, false⟩ ∧
        ¬ E.Invalidates k n ∧ ∀ time result, ¬ E.Finishes k g time result n := by
  cases he : E.event n with
  | none => simp [E.pad n he, Registers, Invalidates, Finishes, he]
  | some a =>
    have hs := E.step n a he
    generalize E.state (n + 1) = t at hs ⊢
    cases hs with
    | get =>
      refine pending_request.trans (or_comm.trans (or_congr (registers_iff he).symm ?_))
      simp [Invalidates, Finishes, he]
    | @finish g' load _ _ hl =>
      have hk' := (lookups hl).1
      have hf : (load.key = k ∧ g' = g) ↔ ∃ time result, E.Finishes k g time result n := by
        constructor
        · rintro ⟨rfl, rfl⟩
          exact ⟨_, _, he, hk'⟩
        · rintro ⟨time, result, hev, hkg⟩
          obtain ⟨rfl, -⟩ : g' = g ∧ _ := by simpa [he] using hev
          exact ⟨by simpa [hk'] using hkg, rfl⟩
      refine unmarked_complete.trans ?_
      rw [hf]
      simp [Registers, Invalidates, he]
    | invalidate =>
      refine unmarked_invalidate.trans ?_
      simp [Registers, Invalidates, Finishes, he]
    | invalidateAll => simp [Registers, Invalidates, he]
    | _ => simp [Registers, Invalidates, Finishes, he, State.setStanding]

/-! Whole runs. -/

/-- What each step adds has been added at some step. -/
theorem happened_iff {P Q : Nat → Prop} (h0 : ¬ P 0) (hs : ∀ m, P (m + 1) ↔ P m ∨ Q m) :
    P n ↔ ∃ m, m < n ∧ Q m := by
  induction n with
  | zero => simp [h0]
  | succ n ih =>
    rw [hs, ih]
    constructor
    · rintro (⟨m, hm, hq⟩ | hq)
      · exact ⟨m, by omega, hq⟩
      · exact ⟨n, by omega, hq⟩
    · rintro ⟨m, hm, hq⟩
      rcases Nat.lt_succ_iff_lt_or_eq.mp hm with hm | rfl
      · exact Or.inl ⟨m, hm, hq⟩
      · exact Or.inr hq

theorem registered_iff :
    (E.state n).cache.keyOf g = some k ↔ ∃ q, q < n ∧ E.Registers k g q := by
  refine happened_iff (P := fun n => (E.state n).cache.keyOf g = some k) ?_ fun _ => keyOf_succ
  simp [E.initial, State.initial, Cache.empty, keyOf]

theorem called_iff : (E.state n).cache.Called g ↔ ∃ b, b < n ∧ ∃ k, E.Begins k g b := by
  refine happened_iff (P := fun n => (E.state n).cache.Called g) ?_ fun _ => called_succ
  simp [E.initial, State.initial, Cache.empty, Called, Finished, phaseOf]

theorem finished_iff :
    (E.state n).cache.Finished g ↔ ∃ f, f < n ∧ ∃ k time result, E.Finishes k g time result f := by
  refine happened_iff (P := fun n => (E.state n).cache.Finished g) ?_ fun _ => finished_succ
  simp [E.initial, State.initial, Cache.empty, Finished, phaseOf]

theorem keyOf_mono (hk : (E.state m).cache.keyOf g = some k) (h : m ≤ n) :
    (E.state n).cache.keyOf g = some k := by
  obtain ⟨q, hq, hr⟩ := registered_iff.mp hk
  exact registered_iff.mpr ⟨q, by omega, hr⟩

theorem finished_mono (hf : (E.state m).cache.Finished g) (h : m ≤ n) :
    (E.state n).cache.Finished g := by
  obtain ⟨f, hfm, hf⟩ := finished_iff.mp hf
  exact finished_iff.mpr ⟨f, by omega, hf⟩

/-- A load keeps its key. -/
theorem key_unique (hm : (E.state m).cache.keyOf g = some k)
    (hn : (E.state n).cache.keyOf g = some k') : k = k' := by
  rcases Nat.le_total m n with h | h
  · exact Option.some.inj ((keyOf_mono hm h).symm.trans hn)
  · exact Option.some.inj (hm.symm.trans (keyOf_mono hn h))

/-- A load is registered behind one of its own key. -/
theorem predecessor_key {p : Nat} (hk : (E.state n).cache.keyOf g = some k)
    (hp : (E.state n).cache.predecessorOf g = some (some p)) :
    (E.state n).cache.keyOf p = some k := by
  induction n generalizing k with
  | zero => simp [E.initial, State.initial, Cache.empty, keyOf] at hk
  | succ n ih =>
    cases he : E.event n with
    | none =>
      rw [E.pad n he] at hk hp ⊢
      exact ih hk hp
    | some a =>
      have hs := E.step n a he
      generalize E.state (n + 1) = t at hs hk hp ⊢
      cases hs with
      | @get k' time =>
        have hr := registering (E.state n).cache k' time
        simp only [State.ask] at hk hp ⊢
        generalize ((E.state n).cache.request k' time).1 = d at hr hk hp ⊢
        generalize ((E.state n).cache.request k' time).2.2 = started at hr
        cases hr with
        | nothing => exact ih hk hp
        | load hslot =>
          refine keyOf_register.mpr (Or.inl ?_)
          rcases keyOf_register.mp hk with hk | ⟨rfl, rfl⟩
          · rcases predecessorOf_register.mp hp with hp | ⟨rfl, -⟩
            · exact ih hk hp
            · exact absurd (lt_length_of_keyOf hk) (Nat.lt_irrefl _)
          · rcases predecessorOf_register.mp hp with hp | ⟨-, rfl⟩
            · simp [predecessorOf] at hp
            · exact ((E.chained n).slot _ p true hslot).1
      | begin => simpa using ih (by simpa using hk) (by simpa using hp)
      | finish =>
        simp only [State.complete, keyOf_complete, predecessorOf_complete] at hk hp ⊢
        exact ih hk hp
      | _ => exact ih hk hp

theorem Registers.not_before (h : E.Registers k g n) : g = (E.state n).cache.loads.length := by
  obtain ⟨time, -, hr⟩ := h
  have hreg := registering (E.state n).cache k time
  rw [hr] at hreg
  generalize ((E.state n).cache.request k time).1 = d at hreg
  cases hreg
  rfl

/-- Loads are numbered in the order of their registration. -/
theorem registers_lt {q q' : Nat} (hg : E.Registers k g q) (hg' : E.Registers k g' q')
    (h : q < q') : g < g' := by
  have hlt := lt_length_of_keyOf (registered_iff.mpr ⟨q, h, hg⟩)
  rwa [← hg'.not_before] at hlt

theorem registers_lt_iff {q q' : Nat} (hg : E.Registers k g q) (hg' : E.Registers k g' q') :
    g < g' ↔ q < q' := by
  rcases Nat.lt_trichotomy q q' with h | rfl | h
  · exact iff_of_true (registers_lt hg hg' h) h
  · rw [hg.not_before, hg'.not_before]
    simp
  · have := registers_lt hg' hg h
    omega

/-- A load is registered once. -/
theorem Registers.unique (hm : E.Registers k g m) (hn : E.Registers k g n) : m = n := by
  rcases Nat.lt_trichotomy m n with h | h | h
  · exact absurd (registers_lt hm hn h) (Nat.lt_irrefl g)
  · exact h
  · exact absurd (registers_lt hn hm h) (Nat.lt_irrefl g)

theorem Registers.lt_begins {b : Nat} (hr : E.Registers k g n) (hb : E.Begins k g b) : n < b := by
  obtain ⟨q, hq, hg⟩ := registered_iff.mp hb.2
  rwa [hr.unique hg]

theorem Begins.uncalled (h : E.Begins k g n) : ¬ (E.state n).cache.Called g := by
  have hs := E.step n _ h.1
  generalize E.state (n + 1) = t at hs
  cases hs with
  | begin hl hq =>
    have hph := (lookups hl).2.2
    rw [hq] at hph
    exact not_called_of_queued hph

theorem Begins.elders (h : E.Begins k g n) : (E.state n).cache.EldersFinished k g := by
  have hs := E.step n _ h.1
  have hk := h.2
  generalize E.state (n + 1) = t at hs
  cases hs with
  | @begin _ load hl hq hr =>
    obtain rfl : load.key = k := by simpa [(lookups hl).1] using hk
    exact (E.chained n).elders_of_ready hl hr

/-- When a load begins, every earlier load of its key has finished. -/
theorem Begins.elder_finished (h : E.Begins k g' n) (hk : (E.state m).cache.keyOf g = some k)
    (hg : g < g') : ∃ f time result, f < n ∧ E.Finishes k g time result f := by
  obtain ⟨k', hk'⟩ := exists_keyOf_of_lt (Nat.lt_trans hg (lt_length_of_keyOf h.2))
  obtain rfl := key_unique hk hk'
  obtain ⟨f, hf, k', time, result, hfin⟩ := finished_iff.mp (h.elders g hg hk')
  obtain rfl := key_unique hfin.2 hk
  exact ⟨f, time, result, hf, hfin⟩

theorem Finishes.cache_succ (h : E.Finishes k g time result n) :
    (E.state (n + 1)).cache = (E.state n).cache.complete k g time result := by
  have hs := E.step n _ h.1
  have hk := h.2
  generalize E.state (n + 1) = t at hs
  cases hs with
  | finish hl =>
    rw [(lookups hl).1, Option.some.injEq] at hk
    rw [← hk]
    rfl

theorem Finishes.clock_succ (h : E.Finishes k g time result n) : (E.state (n + 1)).clock = time := by
  have hs := E.step n _ h.1
  generalize E.state (n + 1) = t at hs ⊢
  cases hs
  rfl

theorem Finishes.time_le (h : E.Finishes k g time result n) :
    (E.state n).clock.elapsed ≤ time.elapsed := by
  have hs := E.step n _ h.1
  generalize E.state (n + 1) = t at hs
  cases hs with
  | finish _ _ ht => exact ht

theorem Finishes.running (h : E.Finishes k g time result n) :
    (E.state n).cache.phaseOf g = some .running := by
  have hs := E.step n _ h.1
  generalize E.state (n + 1) = t at hs
  cases hs with
  | finish hl hr =>
    rw [(lookups hl).2.2, hr]

theorem Finishes.unfinished (h : E.Finishes k g time result n) :
    ¬ (E.state n).cache.Finished g := not_finished_of_running h.running

theorem Finishes.begun (h : E.Finishes k g time result n) : ∃ b, b < n ∧ E.Begins k g b := by
  obtain ⟨b, hb, k', hbegin⟩ := called_iff.mp (Or.inl h.running)
  obtain rfl := key_unique hbegin.2 h.2
  exact ⟨b, hb, hbegin⟩

/-- A load's loader is called once. -/
theorem Begins.unique (hm : E.Begins k g m) (hn : E.Begins k' g n) : m = n := by
  rcases Nat.lt_trichotomy m n with h | h | h
  · exact (hn.uncalled (called_iff.mpr ⟨m, h, k, hm⟩)).elim
  · exact h
  · exact (hm.uncalled (called_iff.mpr ⟨n, h, k', hn⟩)).elim

/-- One step finishes one load. -/
theorem Finishes.same {time' : ClockReading} {result' : LoadResult ν}
    (h : E.Finishes k g time result n) (h' : E.Finishes k' g' time' result' n) :
    k = k' ∧ g = g' ∧ time = time' ∧ result = result' := by
  have hev := h.1.symm.trans h'.1
  simp only [Option.some.injEq, Action.finish.injEq] at hev
  obtain ⟨rfl, rfl, rfl⟩ := hev
  exact ⟨key_unique h.2 h'.2, rfl, rfl, rfl⟩

/-- A load finishes once. -/
theorem Finishes.unique {time' : ClockReading} {result' : LoadResult ν}
    (hm : E.Finishes k g time result m) (hn : E.Finishes k' g time' result' n) :
    m = n ∧ time = time' ∧ result = result' := by
  rcases Nat.lt_trichotomy m n with h | h | h
  · exact (hn.unfinished (finished_iff.mpr ⟨m, h, k, time, result, hm⟩)).elim
  · subst h
    obtain ⟨-, -, rfl, rfl⟩ := hm.same hn
    exact ⟨rfl, rfl, rfl⟩
  · exact (hm.unfinished (finished_iff.mpr ⟨n, h, k', time', result', hn⟩)).elim

theorem Registers.not_invalidates (h : E.Registers k g n) : ¬ E.Invalidates k' n := by
  obtain ⟨time, he, -⟩ := h
  simp [Invalidates, he]

theorem Finishes.not_invalidates (h : E.Finishes k g time result n) : ¬ E.Invalidates k' n := by
  simp [Invalidates, h.1]

theorem intact_succ :
    E.Intact k g (n + 1) ↔ E.Registers k g n ∨ E.Intact k g n ∧ ¬ E.Invalidates k n := by
  constructor
  · rintro ⟨q, hq, hr, hi⟩
    rcases Nat.lt_succ_iff_lt_or_eq.mp hq with hq | rfl
    · refine Or.inr ⟨⟨q, hq, hr, fun i hin => hi i (by omega)⟩, ?_⟩
      intro hn
      have := hi n (by omega) hn
      omega
    · exact Or.inl hr
  · rintro (hr | ⟨⟨q, hq, hr, hi⟩, hn⟩)
    · refine ⟨n, by omega, hr, ?_⟩
      intro i hin hinv
      rcases Nat.lt_succ_iff_lt_or_eq.mp hin with hin | rfl
      · exact hin
      · exact (hr.not_invalidates hinv).elim
    · refine ⟨q, by omega, hr, ?_⟩
      intro i hin hinv
      rcases Nat.lt_succ_iff_lt_or_eq.mp hin with hin | rfl
      · exact hi i hin hinv
      · exact (hn hinv).elim

/-- An intact load begins after every invalidation. -/
theorem Intact.lt_begins {b : Nat} (h : E.Intact k g n) (hi : E.Invalidates k i) (hin : i < n)
    (hb : E.Begins k g b) : i < b := by
  obtain ⟨q, -, hr, hall⟩ := h
  have hq := hall i hin hi
  have hqb := hr.lt_begins hb
  omega

theorem Intact.earlier (h : E.Intact k g n) (hk : (E.state m).cache.keyOf g = some k) (hmn : m ≤ n) :
    E.Intact k g m := by
  obtain ⟨q, -, hr, hall⟩ := h
  obtain ⟨q', hq', hr'⟩ := registered_iff.mp hk
  rw [hr'.unique hr] at hq'
  exact ⟨q, hq', hr, fun i him => hall i (by omega)⟩

/-- Invalidating a key spoils the loads registered before. -/
theorem not_intact {q : Nat} (hr : E.Registers k g q) (hq : q < i) (hi : E.Invalidates k i)
    (hin : i < n) : ¬ E.Intact k g n := by
  rintro ⟨q', -, hr', hall⟩
  have hlt := hall i hin hi
  rw [hr'.unique hr] at hlt
  omega

theorem live_succ :
    E.Live k g (n + 1) ↔ E.Registers k g n ∨ E.Live k g n ∧
      ¬ E.Invalidates k n ∧ ∀ time result, ¬ E.Finishes k g time result n := by
  constructor
  · rintro ⟨hi, hf⟩
    rcases intact_succ.mp hi with hr | ⟨hi, hn⟩
    · exact Or.inl hr
    · refine Or.inr ⟨⟨hi, ?_⟩, hn, fun time result => hf n time result (by omega)⟩
      exact fun f time result hfn => hf f time result (by omega)
  · rintro (hr | ⟨⟨hi, hf⟩, hn, hnf⟩)
    · refine ⟨intact_succ.mpr (Or.inl hr), ?_⟩
      intro f time result hfn hf
      have hlt := lt_length_of_keyOf (keyOf_mono hf.2 (show f ≤ n by omega))
      exact absurd hr.not_before (Nat.ne_of_lt hlt)
    · refine ⟨intact_succ.mpr (Or.inr ⟨hi, hn⟩), ?_⟩
      intro f time result hfn
      rcases Nat.lt_succ_iff_lt_or_eq.mp hfn with hfn | rfl
      · exact hf f time result hfn
      · exact hnf time result

/-- The slot shows the one live load of its key. -/
theorem live_iff : E.Live k g n ↔ (E.state n).cache.pending.get? k = some ⟨g, false⟩ := by
  induction n with
  | zero => simp [Live, Intact, E.initial, State.initial, Cache.empty]
  | succ n ih => rw [live_succ, slot_succ, ih]

end RowReplay.Cache.Execution
