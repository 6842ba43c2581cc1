import RowReplay.Cache.Basic

/-! What each operation of the cache does, seen key by key and load by load. -/
namespace RowReplay.Cache

variable {κ ν : Type}

def keyOf (c : Cache κ ν) (g : Nat) : Option κ := c.loads[g]?.map Load.key

def predecessorOf (c : Cache κ ν) (g : Nat) : Option (Option Nat) :=
  c.loads[g]?.map Load.predecessor

def phaseOf (c : Cache κ ν) (g : Nat) : Option (LoadPhase ν) := c.loads[g]?.map Load.phase

def Finished (c : Cache κ ν) (g : Nat) : Prop := ∃ entry, c.phaseOf g = some (.finished entry)

/-- The loader works for the load or has worked for it. -/
def Called (c : Cache κ ν) (g : Nat) : Prop := c.phaseOf g = some .running ∨ c.Finished g

theorem Finished.called {c : Cache κ ν} {g : Nat} (h : c.Finished g) : c.Called g := Or.inr h

theorem not_finished_of_running {c : Cache κ ν} {g : Nat} (h : c.phaseOf g = some .running) :
    ¬ c.Finished g := by
  rintro ⟨entry, he⟩
  simp [h] at he

theorem not_called_of_queued {c : Cache κ ν} {g : Nat} (h : c.phaseOf g = some .queued) :
    ¬ c.Called g := by
  rintro (hr | ⟨entry, he⟩)
  · simp [h] at hr
  · simp [h] at he

theorem lt_length_of_keyOf {c : Cache κ ν} {g : Nat} {k : κ} (h : c.keyOf g = some k) :
    g < c.loads.length := by
  obtain ⟨load, hl, _⟩ := Option.map_eq_some_iff.mp h
  exact (List.getElem?_eq_some_iff.mp hl).1

theorem exists_keyOf_of_lt {c : Cache κ ν} {g : Nat} (h : g < c.loads.length) :
    ∃ k, c.keyOf g = some k := ⟨c.loads[g].key, by simp [keyOf, List.getElem?_eq_getElem h]⟩

theorem phaseOf_length (c : Cache κ ν) : c.phaseOf c.loads.length = none := by simp [phaseOf]

/-- The three look-ups of one load agree. -/
theorem lookups {c : Cache κ ν} {g : Nat} {load : Load κ ν} (h : c.loads[g]? = some load) :
    c.keyOf g = some load.key ∧ c.predecessorOf g = some load.predecessor ∧
      c.phaseOf g = some load.phase := by
  simp [keyOf, predecessorOf, phaseOf, h]

/-! Moving a load to another phase. -/

@[simp] theorem keyOf_setPhase (c : Cache κ ν) (g j : Nat) (phase : LoadPhase ν) :
    (c.setPhase g phase).keyOf j = c.keyOf j := by
  simp only [keyOf, setPhase, List.getElem?_modify, Option.map_eq_map, Option.map_map]
  congr 1
  funext load
  by_cases h : g = j <;> simp [h]

@[simp] theorem predecessorOf_setPhase (c : Cache κ ν) (g j : Nat) (phase : LoadPhase ν) :
    (c.setPhase g phase).predecessorOf j = c.predecessorOf j := by
  simp only [predecessorOf, setPhase, List.getElem?_modify, Option.map_eq_map, Option.map_map]
  congr 1
  funext load
  by_cases h : g = j <;> simp [h]

@[simp] theorem phaseOf_setPhase (c : Cache κ ν) (g j : Nat) (phase : LoadPhase ν) :
    (c.setPhase g phase).phaseOf j =
      if j = g then (c.phaseOf j).map fun _ => phase else c.phaseOf j := by
  by_cases h : j = g
  · subst j
    simp only [phaseOf, setPhase, List.getElem?_modify, Option.map_eq_map, Option.map_map, if_true]
    rfl
  · simp [phaseOf, setPhase, h, Ne.symm h]

@[simp] theorem length_loads_setPhase (c : Cache κ ν) (g : Nat) (phase : LoadPhase ν) :
    (c.setPhase g phase).loads.length = c.loads.length := by simp [setPhase]

/-- Calling the loader finishes nothing. -/
theorem finished_begin {c : Cache κ ν} {g j : Nat} (h : c.phaseOf g = some .queued) :
    (c.begin g).Finished j ↔ c.Finished j := by
  by_cases hj : j = g
  · subst j
    simp [begin, Finished, h]
  · simp [begin, Finished, hj]

theorem called_begin {c : Cache κ ν} {g j : Nat} (h : c.phaseOf g = some .queued) :
    (c.begin g).Called j ↔ c.Called j ∨ j = g := by
  by_cases hj : j = g
  · subst j
    simp [begin, Called, h]
  · simp [begin, Called, Finished, hj]

@[simp] theorem keyOf_begin (c : Cache κ ν) (g j : Nat) : (c.begin g).keyOf j = c.keyOf j := by
  simp [begin]

@[simp] theorem predecessorOf_begin (c : Cache κ ν) (g j : Nat) :
    (c.begin g).predecessorOf j = c.predecessorOf j := by simp [begin]

@[simp] theorem pending_begin (c : Cache κ ν) (g : Nat) : (c.begin g).pending = c.pending := rfl

theorem isReady_iff {c : Cache κ ν} {load : Load κ ν} :
    c.isReady load = true ↔ ∀ p, load.predecessor = some p → c.Finished p := by
  cases hp : load.predecessor with
  | none => simp [isReady, hp]
  | some p =>
    simp only [isReady, hp, Option.some.injEq, forall_eq', Finished, phaseOf]
    cases hl : c.loads[p]? with
    | none => simp
    | some older =>
      obtain ⟨k, q, phase⟩ := older
      cases phase <;> simp

variable [DecidableEq κ]

@[simp] theorem peek_begin (c : Cache κ ν) (g : Nat) (k : κ) : (c.begin g).peek k = c.peek k := rfl

/-! Registering a load. -/

theorem keyOf_register {c : Cache κ ν} {k k' : κ} {p : Option Nat} {j : Nat} :
    (c.register k p).keyOf j = some k' ↔
      c.keyOf j = some k' ∨ j = c.loads.length ∧ k = k' := by
  simp only [keyOf, register, List.getElem?_append]
  grind

theorem predecessorOf_register {c : Cache κ ν} {k : κ} {p p' : Option Nat} {j : Nat} :
    (c.register k p).predecessorOf j = some p' ↔
      c.predecessorOf j = some p' ∨ j = c.loads.length ∧ p = p' := by
  simp only [predecessorOf, register, List.getElem?_append]
  grind

@[simp] theorem phaseOf_register (c : Cache κ ν) (k : κ) (p : Option Nat) (j : Nat) :
    (c.register k p).phaseOf j = if j = c.loads.length then some .queued else c.phaseOf j := by
  simp only [phaseOf, register, List.getElem?_append]
  grind

theorem finished_register {c : Cache κ ν} {k : κ} {p : Option Nat} {j : Nat} :
    (c.register k p).Finished j ↔ c.Finished j := by
  by_cases h : j = c.loads.length
  · subst j
    simp [Finished, phaseOf_length]
  · simp [Finished, h]

theorem called_register {c : Cache κ ν} {k : κ} {p : Option Nat} {j : Nat} :
    (c.register k p).Called j ↔ c.Called j := by
  by_cases h : j = c.loads.length
  · subst j
    simp [Called, Finished, phaseOf_length]
  · simp [Called, finished_register, h]

/-! Deciding on a request. -/

/-- A request registers a load only if the key's slot is free or invalidated, and behind the load
that holds the slot. -/
inductive Joining (c : Cache κ ν) (k : κ) : Cache κ ν × Nat × Bool → Prop
  | join {g : Nat} (h : c.pending.get? k = some ⟨g, false⟩) : Joining c k (c, g, false)
  | start {p : Option Nat} (h : c.pending.get? k = p.map fun q => ⟨q, true⟩) :
    Joining c k (c.register k p, c.loads.length, true)

theorem joining (c : Cache κ ν) (k : κ) : Joining c k (c.joinOrStart k) := by
  unfold joinOrStart
  split
  case h_1 slot h =>
    obtain ⟨g, invalidated⟩ := slot
    cases invalidated with
    | false => exact .join h
    | true => exact .start (p := some g) h
  case h_2 h => exact .start (p := none) h

/-- What a request does: it serves an entry and registers nothing, serves one past its refresh point
and goes with a load, or waits for a load. -/
inductive Deciding (c : Cache κ ν) (k : κ) (time : ClockReading) :
    Cache κ ν × Decision ν × Option Nat → Prop
  | hit {e : Entry ν} {counters : Counters} (he : c.peek k = some e)
      (hf : e.freshness c.policy time = .fresh) :
      Deciding c k time ({ c with counters }, .hit e, none)
  | staleHit {e : Entry ν} {counters : Counters} {joined : Cache κ ν} {g : Nat} {isNew : Bool}
      (he : c.peek k = some e) (hf : e.freshness c.policy time = .refreshAhead)
      (hj : c.joinOrStart k = (joined, g, isNew)) :
      Deciding c k time
        ({ joined with counters }, .staleHit e, if isNew then some g else none)
  | miss {counters : Counters} {joined : Cache κ ν} {g : Nat} {isNew : Bool}
      (he : ∀ e, c.peek k = some e → e.freshness c.policy time = .expired)
      (hj : c.joinOrStart k = (joined, g, isNew)) :
      Deciding c k time ({ joined with counters }, .miss g, if isNew then some g else none)

theorem deciding (c : Cache κ ν) (k : κ) (time : ClockReading) :
    Deciding c k time (c.request k time) := by
  unfold request
  cases he : c.entries.get? k with
  | none =>
    refine .miss ?_ rfl
    intro e h
    simp [peek, he] at h
  | some e =>
    simp only
    cases hf : e.freshness c.policy time with
    | fresh => exact .hit he hf
    | refreshAhead => exact .staleHit he hf rfl
    | expired =>
      refine .miss ?_ rfl
      intro e' h
      obtain rfl : e = e' := by simpa [peek, he] using h
      exact hf

/-- Up to its counters, a request leaves the cache or registers one load. -/
inductive Registering (c : Cache κ ν) (k : κ) : Cache κ ν → Option Nat → Prop
  | nothing {counters : Counters} : Registering c k { c with counters } none
  | load {counters : Counters} {p : Option Nat}
      (h : c.pending.get? k = p.map fun q => ⟨q, true⟩) :
      Registering c k { c.register k p with counters } (some c.loads.length)

theorem registering (c : Cache κ ν) (k : κ) (time : ClockReading) :
    Registering c k (c.request k time).1 (c.request k time).2.2 := by
  have hd := deciding c k time
  have hj := joining c k
  generalize c.request k time = r at hd ⊢
  cases hd with
  | hit => exact .nothing
  | staleHit _ _ h | miss _ h =>
    rw [h] at hj
    cases hj with
    | join => exact .nothing
    | start hp => exact .load hp

@[simp] theorem policy_request (c : Cache κ ν) (k : κ) (time : ClockReading) :
    (c.request k time).1.policy = c.policy := by
  have hr := registering c k time
  generalize (c.request k time).1 = d at hr ⊢
  generalize (c.request k time).2.2 = started at hr
  cases hr <;> rfl

@[simp] theorem peek_request (c : Cache κ ν) (k j : κ) (time : ClockReading) :
    (c.request k time).1.peek j = c.peek j := by
  have hr := registering c k time
  generalize (c.request k time).1 = d at hr ⊢
  generalize (c.request k time).2.2 = started at hr
  cases hr <;> rfl

theorem keyOf_request {c : Cache κ ν} {k k' : κ} {time : ClockReading} {g : Nat} :
    (c.request k' time).1.keyOf g = some k ↔
      c.keyOf g = some k ∨ k' = k ∧ (c.request k' time).2.2 = some g := by
  have hr := registering c k' time
  generalize (c.request k' time).1 = d at hr ⊢
  generalize (c.request k' time).2.2 = started at hr ⊢
  cases hr with
  | nothing => simp [keyOf]
  | load => exact keyOf_register.trans (or_congr_right (by simp [and_comm, eq_comm]))

theorem phaseOf_request {c : Cache κ ν} {k : κ} {time : ClockReading} {g : Nat}
    (h : g < c.loads.length) : (c.request k time).1.phaseOf g = c.phaseOf g := by
  have hr := registering c k time
  generalize (c.request k time).1 = d at hr ⊢
  generalize (c.request k time).2.2 = started at hr
  cases hr with
  | nothing => rfl
  | load => exact (phaseOf_register ..).trans (if_neg (Nat.ne_of_lt h))

theorem finished_request {c : Cache κ ν} {k : κ} {time : ClockReading} {g : Nat} :
    (c.request k time).1.Finished g ↔ c.Finished g := by
  have hr := registering c k time
  generalize (c.request k time).1 = d at hr ⊢
  generalize (c.request k time).2.2 = started at hr
  cases hr with
  | nothing => exact Iff.rfl
  | load => exact finished_register

theorem called_request {c : Cache κ ν} {k : κ} {time : ClockReading} {g : Nat} :
    (c.request k time).1.Called g ↔ c.Called g := by
  have hr := registering c k time
  generalize (c.request k time).1 = d at hr ⊢
  generalize (c.request k time).2.2 = started at hr
  cases hr with
  | nothing => exact Iff.rfl
  | load => exact called_register

/-- The slot holds a load that is not invalidated if it did so before, or since the request. -/
theorem pending_request {c : Cache κ ν} {k k' : κ} {time : ClockReading} {g : Nat} :
    (c.request k' time).1.pending.get? k = some ⟨g, false⟩ ↔
      c.pending.get? k = some ⟨g, false⟩ ∨ k' = k ∧ (c.request k' time).2.2 = some g := by
  have hr := registering c k' time
  generalize (c.request k' time).1 = d at hr ⊢
  generalize (c.request k' time).2.2 = started at hr ⊢
  cases hr with
  | nothing => simp
  | @load _ p h =>
    by_cases hk : k = k'
    · subst k
      cases p <;> simp_all [Cache.register]
    · simp [Cache.register, hk, Ne.symm hk]

/-- A served entry is the key's, and has not expired. -/
theorem served {c : Cache κ ν} {k : κ} {time : ClockReading} {e : Entry ν}
    (h : (c.request k time).2.1 = .hit e ∨ (c.request k time).2.1 = .staleHit e) :
    c.peek k = some e ∧ e.freshness c.policy time ≠ .expired := by
  have hd := deciding c k time
  generalize c.request k time = r at hd h
  cases hd with
  | hit he hf =>
    obtain rfl : _ = e := by simpa using h
    exact ⟨he, by simp [hf]⟩
  | staleHit he hf =>
    obtain rfl : _ = e := by simpa using h
    exact ⟨he, by simp [hf]⟩
  | miss => simp at h

/-- A request for a key with a valid entry is served that entry. -/
theorem served_of_valid {c : Cache κ ν} {k : κ} {time : ClockReading} {e : Entry ν}
    (he : c.peek k = some e) (hf : e.freshness c.policy time ≠ .expired) :
    (c.request k time).2.1 = .hit e ∨ (c.request k time).2.1 = .staleHit e := by
  have hd := deciding c k time
  generalize c.request k time = r at hd ⊢
  cases hd with
  | hit h | staleHit h =>
    obtain rfl : _ = e := Option.some.inj (h.symm.trans he)
    simp
  | miss h => exact (hf (h e he)).elim

/-- A request that goes with a load leaves that load in the slot, not invalidated. -/
theorem slot_joinOrStart {c joined : Cache κ ν} {k : κ} {g : Nat} {isNew : Bool}
    (h : c.joinOrStart k = (joined, g, isNew)) : joined.pending.get? k = some ⟨g, false⟩ := by
  have hj := joining c k
  rw [h] at hj
  cases hj with
  | join hs => exact hs
  | start => simp [register]

/-- Unless the entry is fresh, a request goes with a load and registers it if it is new. -/
theorem joined {c : Cache κ ν} {k : κ} {time : ClockReading}
    (h : ∀ e, (c.request k time).2.1 ≠ .hit e) :
    (c.request k time).1.pending.get? k = some ⟨(c.joinOrStart k).2.1, false⟩ ∧
      (c.request k time).2.2 =
        if (c.joinOrStart k).2.2 then some (c.joinOrStart k).2.1 else none := by
  have hd := deciding c k time
  generalize c.request k time = r at hd h ⊢
  cases hd with
  | hit => exact (h _ rfl).elim
  | staleHit _ _ hj | miss _ hj =>
    have hs := slot_joinOrStart hj
    rw [hj]
    exact ⟨hs, rfl⟩

theorem isNew_iff {c : Cache κ ν} {k : κ} :
    (c.joinOrStart k).2.2 = true ↔ ¬ ∃ g, c.pending.get? k = some ⟨g, false⟩ := by
  have hj := joining c k
  generalize c.joinOrStart k = r at hj ⊢
  cases hj with
  | join hs => simp [hs]
  | @start p hs => cases p <;> simp [hs]

/-- A request that waits goes with the load it waits for, and found no valid entry. -/
theorem missed {c : Cache κ ν} {k : κ} {time : ClockReading} {g : Nat}
    (h : (c.request k time).2.1 = .miss g) :
    (c.joinOrStart k).2.1 = g ∧
      ∀ e, c.peek k = some e → e.freshness c.policy time = .expired := by
  have hd := deciding c k time
  generalize c.request k time = r at hd h ⊢
  cases hd with
  | hit => simp at h
  | staleHit => simp at h
  | miss he hj =>
    rw [hj]
    exact ⟨by simpa using h, he⟩

/-- A request for a key without an entry waits. -/
theorem missed_of_absent {c : Cache κ ν} {k : κ} (time : ClockReading) (h : c.peek k = none) :
    (c.request k time).2.1 = .miss (c.joinOrStart k).2.1 := by
  have hd := deciding c k time
  generalize c.request k time = r at hd ⊢
  cases hd with
  | hit he | staleHit he => simp [h] at he
  | miss _ hj => rw [hj]

/-! Finishing a load. -/

theorem ownsSlot_iff {c : Cache κ ν} {k : κ} {g : Nat} :
    c.ownsSlot k g = true ↔ ∃ b, c.pending.get? k = some ⟨g, b⟩ := by
  unfold ownsSlot
  cases hs : c.pending.get? k with
  | none => simp
  | some slot =>
    obtain ⟨g', b⟩ := slot
    simp

theorem isCurrent_iff {c : Cache κ ν} {k : κ} {g : Nat} :
    c.isCurrent k g = true ↔ c.pending.get? k = some ⟨g, false⟩ := by
  unfold isCurrent
  cases hs : c.pending.get? k with
  | none => simp
  | some slot =>
    obtain ⟨g', b⟩ := slot
    cases b <;> simp

theorem entryOf_eq_none_iff {c : Cache κ ν} {k : κ} {time : ClockReading} {result : LoadResult ν} :
    c.entryOf k time result = none ↔ result = none := by
  unfold entryOf
  split
  · simp
  · simp
  · split
    · split <;> simp
    · simp

/-- How a result becomes an entry. -/
inductive Making (c : Cache κ ν) (k : κ) (time : ClockReading) : LoadResult ν → Entry ν → Prop
  | loaded {v : ν} : Making c k time (some (.ok v)) (.loaded v time)
  /-- The entry was there with a value that is still valid. -/
  | kept {error : LoadError} {e : Entry ν} (he : c.peek k = some e) (hv : e.value.isSome)
      (hf : e.freshness c.policy time ≠ .expired) :
      Making c k time (some (.error error)) (e.failedRefresh error)
  | failed {error : LoadError}
      (h : ∀ e, c.peek k = some e → e.value.isSome → e.freshness c.policy time = .expired) :
      Making c k time (some (.error error)) (.failed error time)

theorem mustWait_iff {f : Freshness} : f.mustWait = true ↔ f = .expired := by
  cases f <;> simp [Freshness.mustWait]

theorem making {c : Cache κ ν} {k : κ} {time : ClockReading} {result : LoadResult ν} {e : Entry ν}
    (h : c.entryOf k time result = some e) : Making c k time result e := by
  unfold entryOf at h
  split at h
  case h_1 => cases h
  case h_2 =>
    cases h
    exact .loaded
  case h_3 error =>
    split at h
    case h_1 p hp =>
      split at h
      case isTrue hv =>
        cases h
        rw [Bool.and_eq_true, Bool.not_eq_true', ← Bool.not_eq_true, mustWait_iff] at hv
        exact .kept hp hv.1 hv.2
      case isFalse hv =>
        cases h
        refine .failed ?_
        intro p' hp' hv'
        obtain rfl : p = p' := Option.some.inj (hp.symm.trans hp')
        rw [Bool.and_eq_true, Bool.not_eq_true', ← Bool.not_eq_true, mustWait_iff] at hv
        exact Decidable.of_not_not fun hf => hv ⟨hv', hf⟩
    case h_2 hn =>
      cases h
      refine .failed ?_
      intro p' hp' _
      exact absurd (hn.symm.trans hp') (by simp)

@[simp] theorem keyOf_complete (c : Cache κ ν) (k : κ) (g j : Nat) (time : ClockReading)
    (result : LoadResult ν) : (c.complete k g time result).keyOf j = c.keyOf j := by
  simp only [complete, keyOf_setPhase]
  rfl

@[simp] theorem predecessorOf_complete (c : Cache κ ν) (k : κ) (g j : Nat) (time : ClockReading)
    (result : LoadResult ν) :
    (c.complete k g time result).predecessorOf j = c.predecessorOf j := by
  simp only [complete, predecessorOf_setPhase]
  rfl

@[simp] theorem phaseOf_complete (c : Cache κ ν) (k : κ) (g j : Nat) (time : ClockReading)
    (result : LoadResult ν) :
    (c.complete k g time result).phaseOf j =
      if j = g then (c.phaseOf j).map fun _ => .finished (c.entryOf k time result)
      else c.phaseOf j := by
  simp only [complete, phaseOf_setPhase]
  rfl

@[simp] theorem length_loads_complete (c : Cache κ ν) (k : κ) (g : Nat) (time : ClockReading)
    (result : LoadResult ν) : (c.complete k g time result).loads.length = c.loads.length := by
  simp [complete]

theorem finished_complete {c : Cache κ ν} {k : κ} {g j : Nat} {time : ClockReading}
    {result : LoadResult ν} (h : c.phaseOf g = some .running) :
    (c.complete k g time result).Finished j ↔ c.Finished j ∨ j = g := by
  by_cases hj : j = g
  · subst j
    simp [Finished, h]
  · simp [Finished, hj]

theorem called_complete {c : Cache κ ν} {k : κ} {g j : Nat} {time : ClockReading}
    {result : LoadResult ν} (h : c.phaseOf g = some .running) :
    (c.complete k g time result).Called j ↔ c.Called j := by
  by_cases hj : j = g
  · subst j
    simp [Called, finished_complete h, h]
  · simp [Called, finished_complete h, hj]

theorem pending_complete (c : Cache κ ν) (k j : κ) (g : Nat) (time : ClockReading)
    (result : LoadResult ν) :
    (c.complete k g time result).pending.get? j =
      if j = k ∧ c.ownsSlot k g = true then none else c.pending.get? j := by
  by_cases ho : c.ownsSlot k g = true
  · simp [complete, setPhase, ho]
  · simp [complete, setPhase, ho]

/-- A load's completion takes an unmarked slot from nobody else. -/
theorem unmarked_complete {c : Cache κ ν} {k k' : κ} {g g' : Nat} {time : ClockReading}
    {result : LoadResult ν} :
    (c.complete k' g' time result).pending.get? k = some ⟨g, false⟩ ↔
      c.pending.get? k = some ⟨g, false⟩ ∧ ¬ (k' = k ∧ g' = g) := by
  rw [pending_complete]
  by_cases ho : k = k' ∧ c.ownsSlot k' g' = true
  · obtain ⟨rfl, ho⟩ := ho
    obtain ⟨b, hb⟩ := ownsSlot_iff.mp ho
    simp only [ho, and_self, if_true, hb]
    grind
  · rw [if_neg ho]
    constructor
    · intro hs
      refine ⟨hs, ?_⟩
      rintro ⟨rfl, rfl⟩
      exact ho ⟨rfl, ownsSlot_iff.mpr ⟨false, hs⟩⟩
    · exact And.left

theorem peek_complete (c : Cache κ ν) (k j : κ) (g : Nat) (time : ClockReading)
    (result : LoadResult ν) :
    (c.complete k g time result).peek j =
      if j = k ∧ c.isCurrent k g = true then (c.entryOf k time result).or (c.peek j)
      else c.peek j := by
  cases he : c.entryOf k time result with
  | none => simp [complete, setPhase, peek, he]
  | some e =>
    by_cases hc : c.isCurrent k g = true
    · simp [complete, setPhase, peek, he, hc]
    · simp [complete, setPhase, peek, he, hc]

/-! Invalidating. -/

theorem pending_invalidate (c : Cache κ ν) (k j : κ) :
    (c.invalidate k).pending.get? j =
      if j = k then (c.pending.get? j).map fun slot => { slot with invalidated := true }
      else c.pending.get? j := by
  unfold invalidate
  cases hs : c.pending.get? k with
  | none =>
    by_cases h : j = k
    · subst j
      simp [hs]
    · simp [h]
  | some slot =>
    by_cases h : j = k
    · subst j
      simp [hs]
    · simp [h]

@[simp] theorem peek_invalidate (c : Cache κ ν) (k j : κ) :
    (c.invalidate k).peek j = if j = k then none else c.peek j := by simp [invalidate, peek]

theorem unmarked_invalidate {c : Cache κ ν} {k k' : κ} {g : Nat} :
    (c.invalidate k').pending.get? k = some ⟨g, false⟩ ↔
      c.pending.get? k = some ⟨g, false⟩ ∧ k' ≠ k := by
  rw [pending_invalidate]
  by_cases h : k = k'
  · simp [h]
  · simp [h, Ne.symm h]

@[simp] theorem pending_invalidateAll (c : Cache κ ν) (j : κ) :
    c.invalidateAll.pending.get? j =
      (c.pending.get? j).map fun slot => { slot with invalidated := true } := by
  simp [invalidateAll]

@[simp] theorem peek_invalidateAll (c : Cache κ ν) (j : κ) : c.invalidateAll.peek j = none := by
  simp [invalidateAll, peek]

end RowReplay.Cache
