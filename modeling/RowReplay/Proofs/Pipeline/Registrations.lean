import RowReplay.Proofs.Pipeline.Lifecycle
import RowReplay.Proofs.Run

/-!
Every listener that a pipeline has in the course of its life. A registration is known by the step
at which it was made; the lists of a pipeline are those of the registrations that no start, no abort
and no matching removal has ended, and a start fires just these.
-/
namespace RowReplay.Pipeline

inductive Call
  | register (point : ExecutionPoint) (listener : Listener)
  | remove (point : ExecutionPoint) (isMatch : ListenerTag → Bool)
  | operate (operation : Operation)

def call (p : Pipeline) : Call → Pipeline
  | .register point listener => p.registerOnce point listener
  | .remove point isMatch => (p.removeMatching point isMatch).1
  | .operate operation => (p.operate operation).1

def next? (p : Pipeline) (c : Call) : Option Pipeline := some (p.call c)

/-- A pipeline that nothing has been registered at. -/
def bare (branch : Branch) : Pipeline := ⟨.empty, branch, false, false⟩

/-- How a pipeline gets its default wiring. -/
def wiring (producer : String) : List Call :=
  [.register .beforeProducerStart ⟨.defaultWiring, .wireProducer⟩,
    .register .readyForInput ⟨.startBranch producer, .startProducer⟩]

theorem foldl_wiring (branch : Branch) :
    (wiring branch.id).foldl call (bare branch) = fresh branch := rfl

/-- After this call a listener of the point is not there any more. -/
def Call.ends (point : ExecutionPoint) (listener : Listener) : Call → Bool
  | .remove place isMatch => place = point && isMatch listener.tag
  | .operate .start | .operate .abort => true
  | .register .. | .operate .stop => false

variable {branch : Branch} (R : Run next? (bare branch)) {point place : ExecutionPoint}
  {listener : Listener} {i j m n : Nat}

/-- What a call at step `n` leaves of the registrations of a point. -/
def Call.leaves (point : ExecutionPoint) (n : Nat) (list : List (Nat × Listener)) :
    Call → List (Nat × Listener)
  | .register place listener => if place = point then list ++ [(n, listener)] else list
  | .remove place isMatch => if place = point then list.filter fun x => !isMatch x.2.tag else list
  | .operate .start | .operate .abort => []
  | .operate .stop => list

/-- The registrations of a point that are still there, each with its step. -/
def remaining (point : ExecutionPoint) : Nat → List (Nat × Listener)
  | 0 => []
  | n + 1 =>
    match R.event n with
    | some c => c.leaves point n (remaining point n)
    | none => remaining point n

/-- A start fires the registration. -/
def Fires (point : ExecutionPoint) (i n : Nat) : Prop :=
  R.event n = some (.operate .start) ∧ ∃ listener, (i, listener) ∈ remaining R point n

variable {R} {c : Call} {list : List (Nat × Listener)}

theorem mem_leaves :
    (i, listener) ∈ c.leaves point n list ↔
      i = n ∧ c = .register point listener ∨
        (i, listener) ∈ list ∧ c.ends point listener = false := by
  cases c with
  | register place added =>
    by_cases hp : place = point
    · simp [Call.leaves, Call.ends, hp, or_comm, eq_comm]
    · simp [Call.leaves, Call.ends, hp]
  | remove place isMatch => by_cases hp : place = point <;> simp [Call.leaves, Call.ends, hp]
  | operate operation => cases operation <;> simp [Call.leaves, Call.ends]

theorem pairwise_leaves (h : list.Pairwise fun x y => x.1 < y.1) (hn : ∀ x ∈ list, x.1 < n) :
    (c.leaves point n list).Pairwise fun x y => x.1 < y.1 := by
  cases c with
  | register place added =>
    by_cases hp : place = point
    · rw [Call.leaves, if_pos hp]
      refine List.pairwise_append.mpr ⟨h, List.pairwise_singleton _ _, ?_⟩
      intro x hx y hy
      rw [List.mem_singleton.mp hy]
      exact hn x hx
    · rwa [Call.leaves, if_neg hp]
  | remove place isMatch =>
    rw [Call.leaves]
    split
    · exact h.filter _
    · exact h
  | operate operation => cases operation <;> first | exact .nil | exact h

theorem atPoint_setPoint (l : Listeners) (point place : ExecutionPoint) (list : List Listener) :
    (l.setPoint place list).atPoint point = if place = point then list else l.atPoint point := by
  cases point <;> cases place <;> rfl

/-- A call does to the lists of a pipeline what it does to the registrations. -/
theorem atPoint_call {p : Pipeline} (h : p.listeners.atPoint point = list.map Prod.snd) :
    (p.call c).listeners.atPoint point = (c.leaves point n list).map Prod.snd := by
  cases c with
  | register place added =>
    simp only [call, registerOnce, Listeners.register, atPoint_setPoint, Call.leaves]
    split
    case isTrue hp => simp [hp, h]
    case isFalse => exact h
  | remove place isMatch =>
    simp only [call, removeMatching, Listeners.removeMatching, atPoint_setPoint, Call.leaves]
    split
    case isTrue hp => simp [hp, h, List.filter_map, Function.comp_def]
    case isFalse => exact h
  | operate operation =>
    cases operation with
    | start =>
      rw [call, operate, listeners_start]
      cases point <;> rfl
    | abort => cases point <;> rfl
    | stop => exact h

/-! Whole runs. -/

theorem mem_remaining_succ :
    (i, listener) ∈ remaining R point (n + 1) ↔
      R.event n = some (.register point listener) ∧ i = n ∨
        (i, listener) ∈ remaining R point n ∧
          ∀ c, R.event n = some c → c.ends point listener = false := by
  cases he : R.event n with
  | none => simp [remaining, he]
  | some c =>
    simp only [remaining, he, mem_leaves]
    simp [and_comm]

/-- What is still there was registered, and no call since has ended it. -/
theorem mem_remaining_iff :
    (i, listener) ∈ remaining R point n ↔
      i < n ∧ R.event i = some (.register point listener) ∧
        ∀ j c, i < j → j < n → R.event j = some c → c.ends point listener = false := by
  induction n with
  | zero => simp [remaining]
  | succ n ih =>
    rw [mem_remaining_succ, ih]
    constructor
    · rintro (⟨he, rfl⟩ | ⟨⟨hin, he, hkept⟩, hn⟩)
      · exact ⟨by omega, he, by omega⟩
      · refine ⟨by omega, he, fun j c hij hjn hc => ?_⟩
        rcases Nat.lt_succ_iff_lt_or_eq.mp hjn with hjn | rfl
        · exact hkept j c hij hjn hc
        · exact hn c hc
    · rintro ⟨hin, he, hkept⟩
      rcases Nat.lt_succ_iff_lt_or_eq.mp hin with hin | rfl
      · refine Or.inr ⟨⟨hin, he, fun j c hij hjn => hkept j c hij (by omega)⟩, ?_⟩
        exact fun c => hkept n c hin (by omega)
      · exact Or.inl ⟨he, rfl⟩

theorem pairwise_remaining (R : Run next? (bare branch)) (point : ExecutionPoint) (n : Nat) :
    (remaining R point n).Pairwise fun x y => x.1 < y.1 := by
  induction n with
  | zero => exact .nil
  | succ n ih =>
    rw [remaining]
    split
    · exact pairwise_leaves ih fun x hx => (mem_remaining_iff.mp hx).1
    · exact ih

/-- The lists of a pipeline are those of the registrations that are still there. -/
theorem atPoint_eq (R : Run next? (bare branch)) (point : ExecutionPoint) (n : Nat) :
    (R.state n).listeners.atPoint point = (remaining R point n).map Prod.snd := by
  induction n with
  | zero =>
    rw [R.initial]
    cases point <;> rfl
  | succ n ih =>
    cases he : R.event n with
    | none => rw [R.pad n he, ih, remaining, he]
    | some c =>
      rw [← Option.some.inj (R.step n c he), remaining, he]
      exact atPoint_call ih

/-- A registration that is still there has not fired. -/
theorem not_fires (h : (i, listener) ∈ remaining R point n) (hmn : m < n) :
    ¬ Fires R point i m := by
  rintro ⟨hstart, other, hm⟩
  have him := (mem_remaining_iff.mp hm).1
  exact absurd ((mem_remaining_iff.mp h).2.2 m _ him hmn hstart) nofun

theorem Fires.unique (hm : Fires R point i m) (hn : Fires R point i n) : m = n := by
  rcases Nat.lt_trichotomy m n with h | h | h
  · exact (not_fires hn.2.choose_spec h hm).elim
  · exact h
  · exact (not_fires hm.2.choose_spec h hn).elim

/-- What is still there was registered, and has not fired, been removed or been cleared since. -/
theorem mem_remaining_iff_not_fired :
    (i, listener) ∈ remaining R point n ↔
      i < n ∧ R.event i = some (.register point listener) ∧
        ∀ j, i < j → j < n → ¬ Fires R point i j ∧ R.event j ≠ some (.operate .abort) ∧
          ∀ isMatch, R.event j = some (.remove point isMatch) → isMatch listener.tag = false := by
  constructor
  · intro h
    obtain ⟨hin, he, hkept⟩ := mem_remaining_iff.mp h
    refine ⟨hin, he, fun j hij hjn => ⟨not_fires h hjn, ?_, ?_⟩⟩
    · exact fun ha => absurd (hkept j _ hij hjn ha) nofun
    · intro isMatch hr
      simpa [Call.ends] using hkept j _ hij hjn hr
  · -- By induction: the first start to come would have fired what is still there.
    induction n with
    | zero => simp
    | succ n ih =>
      rintro ⟨hin, he, hkept⟩
      rw [mem_remaining_succ]
      rcases Nat.lt_succ_iff_lt_or_eq.mp hin with hin | rfl
      · have hmem := ih ⟨hin, he, fun j hij hjn => hkept j hij (by omega)⟩
        obtain ⟨hfire, habort, hremove⟩ := hkept n hin (by omega)
        refine Or.inr ⟨hmem, fun c hc => ?_⟩
        cases c with
        | register => rfl
        | remove place isMatch =>
          by_cases hp : place = point
          · subst hp
            simp [Call.ends, hremove isMatch hc]
          · simp [Call.ends, hp]
        | operate operation =>
          cases operation with
          | start => exact (hfire ⟨hc, listener, hmem⟩).elim
          | stop => rfl
          | abort => exact (habort hc).elim
      · exact Or.inl ⟨he, rfl⟩

theorem not_fires_of_removed {isMatch : ListenerTag → Bool}
    (he : R.event n = some (.remove point isMatch)) (h : (i, listener) ∈ remaining R point n)
    (hm : isMatch listener.tag = true) : ¬ Fires R point i m := by
  intro hf
  rcases Nat.lt_trichotomy m n with hmn | rfl | hmn
  · exact not_fires h hmn hf
  · exact absurd (he.symm.trans hf.1) nofun
  · obtain ⟨-, other, hother⟩ := hf
    obtain ⟨-, hreg, hkept⟩ := mem_remaining_iff.mp hother
    obtain ⟨hin, hreg', -⟩ := mem_remaining_iff.mp h
    obtain rfl : other = listener := by simpa [hreg] using hreg'
    simpa [Call.ends, hm] using hkept n _ hin hmn he

/-! Starting. -/

/-- How a start goes: the listeners `first` fire in some steps that leave the running flag alone,
then the pipeline runs, and then the listeners `second` fire. These are all steps of the start, and
nothing else is seen of it. -/
structure StartsInOrder (p : Pipeline) (first second : List Listener) (before after : List Step) :
    Prop where
  steps : p.startSteps = before ++ .run :: after
  start : p.play p.startSteps = p.start
  effects : p.start.2 =
    p.firingEffects .beforeProducerStart first ++
      .flag true :: .log (.running p.branch.id) :: p.firingEffects .readyForInput second
  noFlag : ∀ running, .flag running ∉
    p.firingEffects .beforeProducerStart first ++ p.firingEffects .readyForInput second
  firedBefore : ∀ point, fired point before = if point = .beforeProducerStart then first else []
  firedAfter : ∀ point, fired point after = if point = .readyForInput then second else []
  flagBefore : ∀ steps, steps <+: before → (steps.foldl apply p).running = p.running
  flagAfter : ∀ steps, steps <+: after → ((before ++ .run :: steps).foldl apply p).running = true

theorem startsInOrder (p : Pipeline) :
    p.StartsInOrder (p.listeners.atPoint .beforeProducerStart) (p.listeners.atPoint .readyForInput)
      (p.fireSteps .beforeProducerStart)
      (.log (.running p.branch.id) :: p.fireSteps .readyForInput) where
  steps := rfl
  start := p.play_startSteps
  effects := p.effects_start
  noFlag running h :=
    (List.mem_append.mp h).elim (p.flag_not_mem_firingEffects _ _ _)
      (p.flag_not_mem_firingEffects _ _ _)
  firedBefore point := by
    rw [fired_fireSteps]
    cases point <;> rfl
  firedAfter point := by
    refine (fired_fireSteps p .readyForInput).trans ?_
    cases point <;> rfl
  flagBefore steps hs := by
    refine running_foldl (fun step hstep => ?_) rfl
    simp [running?_of_mem_fireSteps (hs.subset hstep)]
  flagAfter steps hs := by
    rw [List.foldl_append, List.foldl_cons]
    refine running_foldl (fun step hstep => ?_) rfl
    rcases List.mem_cons.mp (hs.subset hstep) with rfl | hmem
    · simp [Step.running?]
    · simp [running?_of_mem_fireSteps hmem]

theorem StartsInOrder.running_start {p : Pipeline} {first second : List Listener}
    {before after : List Step} (h : p.StartsInOrder first second before after) :
    p.start.1.running = true := by
  rw [← h.start, h.steps]
  exact h.flagAfter after (List.prefix_refl after)

theorem firing_not_mem_abandonedGates (place : ExecutionPoint) (tag : ListenerTag)
    (dropped : List Listener) : .log (.firing place tag) ∉ abandonedGates dropped := by
  intro h
  obtain ⟨session, hgate⟩ := mem_abandonedGates h
  cases hgate

/-- Only a start fires listeners. -/
theorem firing_not_mem_operate (p : Pipeline) {operation : Operation} (h : operation ≠ .start)
    (place : ExecutionPoint) (tag : ListenerTag) :
    .log (.firing place tag) ∉ (p.operate operation).2 := by
  cases operation with
  | start => exact (h rfl).elim
  | stop => simp [operate, stop]
  | abort => simp [operate, abort, forgetListeners, firing_not_mem_abandonedGates]

theorem running_succ (R : Run next? (bare branch)) (n : Nat) :
    (R.state (n + 1)).running = true ↔
      R.event n = some (.operate .start) ∨ (R.state n).running = true ∧
        R.event n ≠ some (.operate .stop) ∧ R.event n ≠ some (.operate .abort) := by
  cases he : R.event n with
  | none => simp [R.pad n he]
  | some c =>
    rw [← Option.some.inj (R.step n c he)]
    cases c with
    | operate operation =>
      cases operation with
      | start => simp [call, operate, (R.state n).startsInOrder.running_start]
      | stop => simp [call, operate, stop]
      | abort => simp [call, operate, abort, forgetListeners]
    | register => simp [call, registerOnce]
    | remove => simp [call, removeMatching]

/-- A pipeline runs if it was started, and has not been stopped or aborted since. -/
theorem running_iff (R : Run next? (bare branch)) (n : Nat) :
    (R.state n).running = true ↔
      ∃ m, m < n ∧ R.event m = some (.operate .start) ∧
        ∀ j, m < j → j < n →
          R.event j ≠ some (.operate .stop) ∧ R.event j ≠ some (.operate .abort) := by
  induction n with
  | zero => simp [R.initial, bare]
  | succ n ih =>
    rw [running_succ, ih]
    constructor
    · rintro (hstart | ⟨⟨m, hmn, hstart, hsince⟩, hn⟩)
      · exact ⟨n, by omega, hstart, by omega⟩
      · refine ⟨m, by omega, hstart, fun j hmj hjn => ?_⟩
        rcases Nat.lt_succ_iff_lt_or_eq.mp hjn with hjn | rfl
        · exact hsince j hmj hjn
        · exact hn
    · rintro ⟨m, hmn, hstart, hsince⟩
      rcases Nat.lt_succ_iff_lt_or_eq.mp hmn with hmn | rfl
      · refine Or.inr ⟨⟨m, hmn, hstart, fun j hmj hjn => hsince j hmj (by omega)⟩, ?_⟩
        exact hsince n hmn (by omega)
      · exact Or.inl hstart

/-- For any calls on a pipeline, among them those that wired it: a registration fires at most once.
A start fires just the listeners whose registration has not fired and has not been removed or
cleared, each of them once, those of the first point while the running flag keeps its value, those of
the second while the pipeline runs, each point's in the order of their registration; nothing else
fires any. A removal counts the registrations it removes, and these never fire. The pipeline runs if
it was started, and not stopped or aborted since. -/
theorem listeners_of_whole_life (R : Run next? (bare branch)) :
    (wiring branch.id).foldl call (bare branch) = fresh branch ∧
    (∀ point i m n, Fires R point i m → Fires R point i n → m = n) ∧
    (∀ point n, (remaining R point n).Pairwise fun x y => x.1 < y.1) ∧
    (∀ point n i listener, (i, listener) ∈ remaining R point n ↔
      i < n ∧ R.event i = some (.register point listener) ∧
        ∀ j, i < j → j < n → ¬ Fires R point i j ∧ R.event j ≠ some (.operate .abort) ∧
          ∀ isMatch, R.event j = some (.remove point isMatch) → isMatch listener.tag = false) ∧
    (∀ n, ∃ before after,
      (R.state n).StartsInOrder ((remaining R .beforeProducerStart n).map Prod.snd)
        ((remaining R .readyForInput n).map Prod.snd) before after) ∧
    (∀ n operation, operation ≠ .start →
      (R.state n).play ((R.state n).operationSteps operation) = (R.state n).operate operation ∧
        ∀ point, fired point ((R.state n).operationSteps operation) = [] ∧
          ∀ tag, .log (.firing point tag) ∉ ((R.state n).operate operation).2) ∧
    (∀ n point isMatch, R.event n = some (.remove point isMatch) →
      ((R.state n).removeMatching point isMatch).2.1 =
          (remaining R point n).countP (fun x => isMatch x.2.tag) ∧
        (∀ place tag,
          .log (.firing place tag) ∉ ((R.state n).removeMatching point isMatch).2.2) ∧
        ∀ i listener, (i, listener) ∈ remaining R point n → isMatch listener.tag = true →
          ∀ m, ¬ Fires R point i m) ∧
    ∀ n, (R.state n).running = true ↔
      ∃ m, m < n ∧ R.event m = some (.operate .start) ∧
        ∀ j, m < j → j < n →
          R.event j ≠ some (.operate .stop) ∧ R.event j ≠ some (.operate .abort) := by
  refine ⟨foldl_wiring branch, fun _ _ _ _ => Fires.unique, pairwise_remaining R,
    fun _ _ _ _ => mem_remaining_iff_not_fired, ?_, ?_, ?_, running_iff R⟩
  · intro n
    rw [← atPoint_eq, ← atPoint_eq]
    exact ⟨_, _, (R.state n).startsInOrder⟩
  · intro n operation ho
    refine ⟨(R.state n).play_operationSteps operation, fun point => ⟨?_, ?_⟩⟩
    · cases operation with
      | start => exact (ho rfl).elim
      | stop | abort => rfl
    · exact (R.state n).firing_not_mem_operate ho point
  · intro n point isMatch he
    refine ⟨?_, fun place tag => firing_not_mem_abandonedGates place tag _,
      fun i listener h hm m => not_fires_of_removed he h hm⟩
    simp only [removeMatching, Listeners.matching, atPoint_eq, List.countP_eq_length_filter,
      List.filter_map, List.length_map, Function.comp_def]

/-- Two registrations of one listener are two, whose first is older. -/
example :
    remaining (.ofActions next? (bare (.fresh "service" [] []))
      (wiring "service" ++
        [.register .readyForInput ⟨.named "a", .announce⟩, .operate .stop,
          .register .readyForInput ⟨.named "a", .announce⟩,
          .remove .readyForInput (· = .startBranch "service")]) rfl) .readyForInput 6 =
      [(2, ⟨.named "a", .announce⟩), (4, ⟨.named "a", .announce⟩)] := by decide

end RowReplay.Pipeline
