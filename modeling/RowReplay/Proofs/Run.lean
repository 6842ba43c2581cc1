/-! Runs of a system whose next state is a function of its state and an action. -/
namespace RowReplay

variable {σ α : Type} {next? : σ → α → Option σ} {start : σ}

/-- No prefix of a list of actions that can be taken gets stuck, so each action leads on. -/
theorem foldlM_take_succ {actions : List α} {a : α} {n : Nat}
    (h : (actions.foldlM next? start).isSome) (hn : actions[n]? = some a) :
    next? (((actions.take n).foldlM next? start).getD start) a =
      some (((actions.take (n + 1)).foldlM next? start).getD start) := by
  have hrun : ∀ m, ((actions.take m).foldlM next? start).isSome := by
    intro m
    rw [← List.take_append_drop m actions, List.foldlM_append] at h
    exact Option.isSome_of_isSome_bind h
  obtain ⟨s, hs⟩ := Option.isSome_iff_exists.mp (hrun n)
  obtain ⟨t, ht⟩ := Option.isSome_iff_exists.mp (hrun (n + 1))
  have hnext := ht
  rw [List.take_add_one, hn, List.foldlM_append, hs] at hnext
  rw [hs, ht]
  simpa using hnext

/-- Actions that can be taken lead to a state. -/
def Reaches (next? : σ → α → Option σ) (start s : σ) : Prop :=
  ∃ actions : List α, actions.foldlM next? start = some s

theorem Reaches.refl : Reaches next? start start := ⟨[], rfl⟩

theorem Reaches.step {s t : σ} {a : α} (h : Reaches next? start s) (hs : next? s a = some t) :
    Reaches next? start t := by
  obtain ⟨actions, ha⟩ := h
  exact ⟨actions ++ [a], by simp [List.foldlM_append, ha, hs]⟩

/-- A run of any length: where it has no event, the state stays. -/
structure Run {σ α : Type} (next? : σ → α → Option σ) (start : σ) where
  state : Nat → σ
  event : Nat → Option α
  initial : state 0 = start
  pad : ∀ n, event n = none → state (n + 1) = state n
  step : ∀ n a, event n = some a → next? (state n) a = some (state (n + 1))

namespace Run

variable (R : Run next? start) {P : σ → Prop} {m n : Nat}

/-- What holds at some time and is kept by every step from then on holds ever after. -/
theorem stable (h : P (R.state m)) (hmn : m ≤ n)
    (hs : ∀ i a, m ≤ i → R.event i = some a → P (R.state i) → P (R.state (i + 1))) :
    P (R.state n) := by
  induction hmn with
  | refl => exact h
  | @step n hmn ih =>
    cases he : R.event n with
    | none => rwa [R.pad n he]
    | some a => exact hs n a hmn he ih

/-- What holds at the start and is kept by every step holds throughout. -/
theorem invariant (h : P start) (hs : ∀ s a t, P s → next? s a = some t → P t) (n : Nat) :
    P (R.state n) := by
  refine R.stable ?_ (Nat.zero_le n) fun i a _ he hi => hs _ a _ hi (R.step i a he)
  rwa [R.initial]

/-- What comes to hold does so in some step. -/
theorem exists_change (h : ¬ P (R.state m)) (hn : P (R.state n)) (hmn : m ≤ n) :
    ∃ k a, m ≤ k ∧ k < n ∧ R.event k = some a ∧ ¬ P (R.state k) ∧ P (R.state (k + 1)) := by
  induction hmn with
  | refl => exact (h hn).elim
  | @step n hmn ih =>
    by_cases hp : P (R.state n)
    · obtain ⟨k, a, hmk, hkn, hk⟩ := ih hp
      exact ⟨k, a, hmk, Nat.lt_succ_of_lt hkn, hk⟩
    · cases he : R.event n with
      | none =>
        rw [Nat.succ_eq_add_one, R.pad n he] at hn
        exact (hp hn).elim
      | some a => exact ⟨n, a, hmn, Nat.lt_succ_self n, he, hp, hn⟩

/-- How many events of a kind there are from one time to another. -/
def count (p : α → Bool) (m n : Nat) : Nat := ((List.range' m (n - m)).filterMap R.event).countP p

theorem count_self (p : α → Bool) (m : Nat) : R.count p m m = 0 := by simp [count]

theorem count_succ (p : α → Bool) (hmn : m ≤ n) :
    R.count p m (n + 1) = R.count p m n + if (R.event n).any p then 1 else 0 := by
  have hlen : n + 1 - m = (n - m) + 1 := by omega
  have hlast : m + (n - m) = n := by omega
  rw [count, count, hlen, List.range'_1_concat, hlast, List.filterMap_append, List.countP_append]
  cases he : R.event n <;> simp [he]

/-- Every step of a kind uses up a part of what no step adds to, so there are not more of them. -/
theorem count_le_of_variant {p : α → Bool} {variant : σ → Nat} (hmn : m ≤ n)
    (hs : ∀ i a, m ≤ i → R.event i = some a →
      variant (R.state (i + 1)) + (if p a then 1 else 0) ≤ variant (R.state i)) :
    R.count p m n + variant (R.state n) ≤ variant (R.state m) := by
  induction hmn with
  | refl => simp [R.count_self]
  | @step n hmn ih =>
    rw [Nat.succ_eq_add_one, R.count_succ p hmn]
    cases he : R.event n with
    | none =>
      rw [R.pad n he]
      simpa using ih
    | some a =>
      have := hs n a hmn he
      simp only [Option.any_some]
      omega

/-! Fairness. -/

/-- Actions of a kind are not put off for ever: one is taken after every time from which on one can
always be taken. -/
def Just (R : Run next? start) (p : α → Bool) : Prop :=
  ∀ m, (∀ n, m ≤ n → ∃ a, p a = true ∧ (next? (R.state n) a).isSome = true) →
    ∃ n a, m ≤ n ∧ R.event n = some a ∧ p a = true

theorem le_of_variant {variant : σ → Nat} (hmn : m ≤ n)
    (hs : ∀ i a, m ≤ i → R.event i = some a → variant (R.state (i + 1)) ≤ variant (R.state i)) :
    variant (R.state n) ≤ variant (R.state m) :=
  R.stable (P := fun s => variant s ≤ variant (R.state m)) (Nat.le_refl _) hmn
    fun i a hmi he hi => Nat.le_trans (hs i a hmi he) hi

/-- What no step adds to stays the same from some time on. -/
theorem settles (variant : σ → Nat)
    (hs : ∀ i a, m ≤ i → R.event i = some a → variant (R.state (i + 1)) ≤ variant (R.state i)) :
    ∃ n, m ≤ n ∧ ∀ i, n ≤ i → variant (R.state i) = variant (R.state n) := by
  generalize hv : variant (R.state m) = v
  induction v using Nat.strongRecOn generalizing m with
  | ind v ih =>
    by_cases hless : ∃ n, m ≤ n ∧ variant (R.state n) < v
    · obtain ⟨n, hmn, hn⟩ := hless
      obtain ⟨k, hnk, hk⟩ := ih _ hn (fun i a hni => hs i a (Nat.le_trans hmn hni)) rfl
      exact ⟨k, Nat.le_trans hmn hnk, hk⟩
    · refine ⟨m, Nat.le_refl m, fun i hmi => ?_⟩
      have hle := R.le_of_variant hmi hs
      have hge : ¬ variant (R.state i) < v := fun hi => hless ⟨i, hmi, hi⟩
      omega

/-- What no step adds to, and every action of a kind that is not put off takes from, is used up. -/
theorem runs_out {p : α → Bool} (variant : σ → Nat) (hp : R.Just p)
    (hs : ∀ i a, m ≤ i → R.event i = some a →
      variant (R.state (i + 1)) + (if p a then 1 else 0) ≤ variant (R.state i))
    (hgo : ∀ i, m ≤ i → 0 < variant (R.state i) →
      ∃ a, p a = true ∧ (next? (R.state i) a).isSome = true) :
    ∃ n, m ≤ n ∧ ∀ i, n ≤ i → variant (R.state i) = 0 := by
  obtain ⟨n, hmn, hn⟩ := R.settles variant fun i a hmi he => Nat.le_of_add_right_le (hs i a hmi he)
  refine ⟨n, hmn, fun i hni => ?_⟩
  rw [hn i hni]
  refine Nat.eq_zero_of_not_pos fun hpos => ?_
  obtain ⟨j, a, hnj, he, ha⟩ :=
    hp n fun j hnj => hgo j (Nat.le_trans hmn hnj) (by rwa [hn j hnj])
  have hless := hs j a (Nat.le_trans hmn hnj) he
  rw [hn j hnj, hn (j + 1) (Nat.le_succ_of_le hnj), if_pos ha] at hless
  omega

/-- Actions that can never be taken again are not put off. -/
theorem just_of_disabled {p : α → Bool}
    (h : ∀ n, m ≤ n → ∀ a, p a = true → next? (R.state n) a = none) : R.Just p := by
  intro l hl
  obtain ⟨a, ha, hsome⟩ := hl (max l m) (Nat.le_max_left l m)
  simp [h _ (Nat.le_max_right l m) a ha] at hsome

/-! What holds without a break. -/

/-- Something has held without a break since a time, as a clock shows it. -/
def HeldSince (P : σ → Prop) (now : σ → Nat) (time n : Nat) : Prop :=
  ∃ m, m ≤ n ∧ now (R.state m) ≤ time ∧ ∀ j, m ≤ j → j ≤ n → P (R.state j)

variable {R} in
theorem HeldSince.refl {now : σ → Nat} (h : P (R.state n)) :
    R.HeldSince P now (now (R.state n)) n := by
  refine ⟨n, Nat.le_refl n, Nat.le_refl _, fun j hnj hjn => ?_⟩
  rwa [Nat.le_antisymm hjn hnj]

variable {R} in
theorem HeldSince.succ {now : σ → Nat} {time : Nat} (h : R.HeldSince P now time n)
    (hn : P (R.state (n + 1))) : R.HeldSince P now time (n + 1) := by
  obtain ⟨m, hmn, ht, hheld⟩ := h
  refine ⟨m, by omega, ht, fun j hmj hjn => ?_⟩
  rcases Nat.lt_succ_iff_lt_or_eq.mp (Nat.lt_succ_of_le hjn) with hj | rfl
  · exact hheld j hmj (Nat.le_of_lt_succ hj)
  · exact hn

/-! Runs that are broken off. -/

/-- The run up to a time, resting there. -/
def upTo (l : Nat) : Run next? start where
  state n := R.state (min n l)
  event n := if n < l then R.event n else none
  initial := by rw [Nat.zero_min, R.initial]
  pad n hn := by
    by_cases hl : n < l
    · rw [if_pos hl] at hn
      rw [Nat.min_eq_left hl, Nat.min_eq_left (Nat.le_of_lt hl), R.pad n hn]
    · rw [Nat.min_eq_right (by omega), Nat.min_eq_right (by omega)]
  step n a hn := by
    by_cases hl : n < l
    · rw [if_pos hl] at hn
      rw [Nat.min_eq_left hl, Nat.min_eq_left (Nat.le_of_lt hl), R.step n a hn]
    · simp [hl] at hn

theorem state_upTo {l : Nat} (h : n ≤ l) : (R.upTo l).state n = R.state n :=
  congrArg R.state (Nat.min_eq_left h)

theorem state_upTo_of_le {l : Nat} (h : l ≤ n) : (R.upTo l).state n = R.state l :=
  congrArg R.state (Nat.min_eq_right h)

theorem event_upTo {l : Nat} {a : α} :
    (R.upTo l).event n = some a ↔ n < l ∧ R.event n = some a := by
  by_cases h : n < l <;> simp [upTo, h]

variable {R} in
theorem HeldSince.of_upTo {now : σ → Nat} {time l : Nat}
    (h : (R.upTo l).HeldSince P now time n) : R.HeldSince P now time (min n l) := by
  obtain ⟨m, hmn, ht, hheld⟩ := h
  refine ⟨min m l, by omega, ht, fun j hmj hjn => ?_⟩
  rcases Nat.le_total m l with hml | hlm
  · have hj := hheld j (by omega) (by omega)
    rwa [R.state_upTo (by omega)] at hj
  · have hj := hheld m (Nat.le_refl m) hmn
    rwa [R.state_upTo_of_le hlm, show l = j by omega] at hj

/-- Actions that can not be taken where a run is broken off are not put off there. -/
theorem just_upTo {p : α → Bool} {l : Nat} (h : ∀ a, p a = true → next? (R.state l) a = none) :
    (R.upTo l).Just p := by
  refine just_of_disabled _ (m := l) fun n hn a ha => ?_
  rw [R.state_upTo_of_le hn]
  exact h a ha

/-- What comes to hold holds somewhere for the first time. -/
theorem exists_first (h : P (R.state n)) : ∃ l, P (R.state l) ∧ ∀ m < l, ¬ P (R.state m) := by
  induction n using Nat.strongRecOn with
  | ind n ih =>
    by_cases hless : ∃ m < n, P (R.state m)
    · obtain ⟨m, hm, hp⟩ := hless
      exact ih m hm hp
    · exact ⟨n, h, fun m hm hp => hless ⟨m, hm, hp⟩⟩

/-- A finite run that can be taken, resting in its last state. -/
def ofActions (next? : σ → α → Option σ) (start : σ) (actions : List α)
    (h : (actions.foldlM next? start).isSome) : Run next? start where
  state n := ((actions.take n).foldlM next? start).getD start
  event n := actions[n]?
  initial := rfl
  pad n hn := by
    have hlen := List.getElem?_eq_none_iff.mp hn
    rw [List.take_of_length_le hlen, List.take_of_length_le (by omega)]
  step n a hn := foldlM_take_succ h hn

theorem state_of_length_le {actions : List α} {h : (actions.foldlM next? start).isSome}
    (hn : actions.length ≤ n) :
    (ofActions next? start actions h).state n =
      (ofActions next? start actions h).state actions.length := by
  simp only [ofActions, List.take_of_length_le hn, List.take_length]

theorem mem_take_of_event {actions : List α} {h : (actions.foldlM next? start).isSome} {a : α}
    (hmn : m < n) (he : (ofActions next? start actions h).event m = some a) :
    a ∈ actions.take n := by
  refine List.mem_of_getElem? (i := m) ?_
  rw [List.getElem?_take, if_pos hmn]
  exact he

theorem mem_drop_of_event {actions : List α} {h : (actions.foldlM next? start).isSome} {a : α}
    (hmn : m ≤ n) (he : (ofActions next? start actions h).event n = some a) :
    a ∈ actions.drop m := by
  refine List.mem_of_getElem? (i := n - m) ?_
  rw [List.getElem?_drop, Nat.add_sub_cancel' hmn]
  exact he

/-- Actions that lead to one state, and from there to another, make a run through both. -/
theorem exists_through {first rest : List α} {s t : σ} (hf : first.foldlM next? start = some s)
    (hr : rest.foldlM next? s = some t) :
    ∃ (R : Run next? start) (m n : Nat), m ≤ n ∧ R.state m = s ∧ R.state n = t ∧
      ∀ i a, m ≤ i → R.event i = some a → a ∈ rest := by
  have hall : (first ++ rest).foldlM next? start = some t := by
    rw [List.foldlM_append, hf]
    exact hr
  refine ⟨.ofActions next? start (first ++ rest) (by simp [hall]), first.length,
    (first ++ rest).length, by simp, ?_, ?_, fun i a hmi he => ?_⟩
  · simp [ofActions, hf]
  · simp only [ofActions, List.take_length, hall, Option.getD_some]
  · simpa using mem_drop_of_event hmi he

end Run

/-- Every state that actions lead to is one of a run. -/
theorem Reaches.run {s : σ} (h : Reaches next? start s) :
    ∃ (R : Run next? start) (n : Nat), R.state n = s := by
  obtain ⟨actions, ha⟩ := h
  refine ⟨.ofActions next? start actions (by simp [ha]), actions.length, ?_⟩
  simp [Run.ofActions, ha]

end RowReplay
