import RowReplay.Proofs.Pipeline.Lifecycle

/-!
A session in the place of a pipeline's own producer. Whatever has been registered before, the
producer's own listeners are gone, so nothing wires or starts it any more; and when the session's
listeners fire, the producer is shut down before the pipeline runs, and the gate opens after that.
-/
namespace RowReplay

namespace Listeners

variable {l : Listeners} {point place : ExecutionPoint} {listener added : Listener}

theorem mem_register (h : listener ∈ (l.register point added).atPoint place) :
    listener ∈ l.atPoint place ∨ listener = added := by
  by_cases hp : point = place
  · subst hp
    cases point <;> exact (List.mem_append.mp h).imp_right List.mem_singleton.mp
  · refine Or.inl ?_
    cases point <;> cases place <;> first | exact h | exact (hp rfl).elim

theorem mem_removeMatching {isMatch : ListenerTag → Bool}
    (h : listener ∈ (l.removeMatching point isMatch).atPoint place) :
    listener ∈ l.atPoint place := by
  by_cases hp : point = place
  · subst hp
    cases point <;> exact (List.mem_filter.mp h).1
  · cases point <;> cases place <;> first | exact h | exact (hp rfl).elim

end Listeners

namespace Pipeline

/-- What may be done to a pipeline before its first start. -/
inductive Preparation
  | register (point : ExecutionPoint) (tag : ListenerTag)
  | remove (point : ExecutionPoint) (isMatch : ListenerTag → Bool)
  | stop
  | abort

def prepare (p : Pipeline) : Preparation → Pipeline
  | .register point tag => p.registerOnce point ⟨tag, .announce⟩
  | .remove point isMatch => (p.removeMatching point isMatch).1
  | .stop => p.stop.1
  | .abort => p.abort.1

/-- A pipeline with a producer, before its first start. -/
def prepared (producer : String) (stages : List String) (nativeRows : RowSequence)
    (preparations : List Preparation) : Pipeline :=
  preparations.foldl prepare (.fresh (.fresh producer stages nativeRows))

/-- The pipeline has not run, and only its own listeners would wire or start its producer. -/
structure Unstarted (branch : Branch) (p : Pipeline) : Prop where
  producer : p.branch = branch
  running : p.running = false
  wired : p.wired = false
  own : ∀ point, ∀ listener ∈ p.listeners.atPoint point, listener.action.runsProducer = true →
    listener ∈ (defaultListeners branch.id).atPoint point

variable {branch : Branch} {p : Pipeline}

theorem unstarted_fresh (branch : Branch) : (fresh branch).Unstarted branch :=
  ⟨rfl, rfl, rfl, fun _ _ hl _ => hl⟩

theorem Unstarted.prepare (h : p.Unstarted branch) (preparation : Preparation) :
    (p.prepare preparation).Unstarted branch := by
  cases preparation with
  | register point tag =>
    refine ⟨h.producer, h.running, h.wired, fun place listener hl ha => ?_⟩
    rcases Listeners.mem_register hl with hl | rfl
    · exact h.own place listener hl ha
    · cases ha
  | remove point isMatch =>
    refine ⟨h.producer, h.running, h.wired, fun place listener hl ha => ?_⟩
    exact h.own place listener (Listeners.mem_removeMatching hl) ha
  | stop => exact ⟨h.producer, rfl, h.wired, h.own⟩
  | abort =>
    refine ⟨h.producer, rfl, h.wired, fun place listener hl _ => ?_⟩
    cases place <;> cases hl

theorem Unstarted.foldl (h : p.Unstarted branch) (preparations : List Preparation) :
    (preparations.foldl Pipeline.prepare p).Unstarted branch := by
  induction preparations generalizing p with
  | nil => exact h
  | cons preparation rest ih => exact ih (h.prepare preparation)

theorem unstarted_prepared (producer : String) (stages : List String) (nativeRows : RowSequence)
    (preparations : List Preparation) :
    (prepared producer stages nativeRows preparations).Unstarted
      (.fresh producer stages nativeRows) := (unstarted_fresh _).foldl preparations

/-! The pipeline that is armed. -/

theorem beforeStart_arm (p : Pipeline) (id : SessionId) :
    (p.arm id).1.listeners.beforeStart =
      p.listeners.beforeStart.filter (fun listener => listener.tag ≠ .defaultWiring) ++
        [⟨.cacheReplay id, .shutDownProducer⟩] := by
  simp [arm, removeMatching, registerOnce, Listeners.removeMatching, Listeners.register,
    Listeners.setPoint, Listeners.atPoint]

theorem ready_arm (p : Pipeline) (id : SessionId) :
    (p.arm id).1.listeners.ready =
      p.listeners.ready.filter (fun listener => listener.tag ≠ .startBranch p.branch.id) ++
        [⟨.cacheReplay id, .openGate id⟩] := by
  simp [arm, removeMatching, registerOnce, Listeners.removeMatching, Listeners.register,
    Listeners.setPoint, Listeners.atPoint]
  rfl

/-- Arming does not start the producer. -/
theorem silent_arm (p : Pipeline) (id : SessionId) : .emitNativeRows ∉ (p.arm id).2 := by
  simp [arm, removeMatching, silent_abandonedGates]

/-- Only the pipeline's own listeners would wire or start the producer, and these are removed. -/
theorem Unstarted.isReplaced_arm (h : p.Unstarted branch) (id : SessionId) :
    (p.arm id).1.IsReplaced := by
  intro point listener hl
  cases ha : listener.action.runsProducer with
  | false => rfl
  | true =>
    cases point with
    | beforeProducerStart =>
      rw [Listeners.atPoint, beforeStart_arm, List.mem_append, List.mem_filter] at hl
      rcases hl with ⟨hl, htag⟩ | hl
      · have hown := h.own .beforeProducerStart listener hl ha
        simp [defaultListeners, Listeners.atPoint] at hown
        simp [hown] at htag
      · rw [List.mem_singleton.mp hl] at ha
        cases ha
    | readyForInput =>
      rw [Listeners.atPoint, ready_arm, List.mem_append, List.mem_filter] at hl
      rcases hl with ⟨hl, htag⟩ | hl
      · have hown := h.own .readyForInput listener hl ha
        simp [defaultListeners, Listeners.atPoint] at hown
        simp [hown, h.producer] at htag
      · rw [List.mem_singleton.mp hl] at ha
        cases ha

/-- How the start goes that fires the listeners of an armed pipeline: some steps `halts` came before
it, and it consists of some steps, then the pipeline runs, and then come others. -/
structure FiresInOrder (p : Pipeline) (id : SessionId) (halts before after : List Step) : Prop where
  start : p.startSteps = before ++ .run :: after
  firedBefore : ∀ point, fired point before =
    if point = .beforeProducerStart then p.listeners.beforeStart else []
  firedAfter : ∀ point, fired point after =
    if point = .readyForInput then p.listeners.ready else []
  shutDown : shutDownSteps p.branch.id p.branch.stageNames <:+ before
  gate : [.openGate id] <:+ after
  branch : ((halts ++ before).foldl apply p).branch.IsShutDown
  stopped : ∀ steps, steps <+: halts ++ before → (steps.foldl apply p).running = false
  running : ∀ steps, steps <+: after →
    ((halts ++ before ++ .run :: steps).foldl apply p).running = true

/-- The steps of the last listener come last. -/
theorem actSteps_suffix_fireSteps (p : Pipeline) {kept : List Listener} {last : Listener}
    (point : ExecutionPoint) (h : p.listeners.atPoint point = kept ++ [last]) :
    actSteps p.branch.id p.branch.stageNames last <:+ p.fireSteps point := by
  refine ⟨.takeOut point :: actAllSteps p.branch.id p.branch.stageNames point kept ++
    [.firing point last], ?_⟩
  simp [fireSteps, h, actAllSteps]

/-- A branch is shut down when all steps of its shutdown are done, whatever came before. -/
theorem isShutDown_of_suffix {steps : List Step}
    (h : shutDownSteps p.branch.id p.branch.stageNames <:+ steps) :
    (steps.foldl apply p).branch.IsShutDown := by
  obtain ⟨first, rfl⟩ := h
  obtain ⟨hid, hnames⟩ := p.branch_foldl first
  have hlast := congrArg (fun r => r.1.branch) (play_shutDownSteps (first.foldl apply p))
  simp only [play, hid, hnames] at hlast
  rw [List.foldl_append, hlast]
  exact Branch.isShutDown_shutDown _

theorem firesInOrder {id : SessionId} {halts : List Step} {first second : List Listener}
    (hr : p.running = false)
    (hfirst : p.listeners.beforeStart = first ++ [⟨.cacheReplay id, .shutDownProducer⟩])
    (hsecond : p.listeners.ready = second ++ [⟨.cacheReplay id, .openGate id⟩])
    (hhalts : ∀ step ∈ halts, step.isHalting = true) :
    p.FiresInOrder id halts (p.fireSteps .beforeProducerStart)
      (.log (.running p.branch.id) :: p.fireSteps .readyForInput) := by
  have hshut := p.actSteps_suffix_fireSteps .beforeProducerStart hfirst
  have hgate := p.actSteps_suffix_fireSteps .readyForInput hsecond
  constructor
  · rfl
  · intro point
    rw [fired_fireSteps]
    cases point <;> rfl
  · intro point
    refine (fired_fireSteps p .readyForInput).trans ?_
    cases point <;> rfl
  · exact hshut
  · exact hgate.trans (List.suffix_cons ..)
  · exact isShutDown_of_suffix (hshut.trans (List.suffix_append ..))
  · -- Nothing before the run sets the flag, and the stops before the start only lower it.
    intro steps hs
    refine running_foldl (fun step hstep => ?_) hr
    rcases List.mem_append.mp (hs.subset hstep) with hmem | hmem
    · have := hhalts step hmem
      cases step <;> simp_all [Step.isHalting, Step.running?]
    · simp [running?_of_mem_fireSteps hmem]
  · intro steps hs
    rw [List.foldl_append, List.foldl_cons]
    refine running_foldl (fun step hstep => ?_) rfl
    rcases List.mem_cons.mp (hs.subset hstep) with rfl | hmem
    · simp [Step.running?]
    · simp [running?_of_mem_fireSteps hmem]

/-- Whatever producer, stages and listeners a pipeline has when a session takes its producer's place
before the first start: at each point just the producer's own listeners go, the others stay in order,
and one of the session comes last. Then, however the pipeline is started, stopped and aborted, its
producer is not wired or started and emits nothing. Listeners fire in one start or never; there all of
them fire once and in order, the branch is shut down while the pipeline does not run yet, and the gate
opens when it runs. -/
theorem producer_replaced (producer : String) (stages : List String) (nativeRows : RowSequence)
    (preparations : List Preparation) (id : SessionId) :
    let p := prepared producer stages nativeRows preparations
    let armed := (p.arm id).1
    armed.listeners.beforeStart =
        p.listeners.beforeStart.filter (fun listener => listener.tag ≠ .defaultWiring) ++
          [⟨.cacheReplay id, .shutDownProducer⟩] ∧
      armed.listeners.ready =
        p.listeners.ready.filter (fun listener => listener.tag ≠ .startBranch producer) ++
          [⟨.cacheReplay id, .openGate id⟩] ∧
      ∀ operations,
        armed.play (armed.history operations) = armed.live operations ∧
        (armed.live operations).1.wired = false ∧
        (armed.live operations).1.branch.started = false ∧
        .emitNativeRows ∉ (armed.live operations).2 ∧
        (∀ step ∈ armed.history operations, step.runsProducer = false) ∧
        (.start ∉ operations.takeWhile (· ≠ .abort) ∧
            (∀ point, fired point (armed.history operations) = []) ∨
          ∃ halts before after rest,
            armed.history operations = halts ++ (before ++ .run :: after) ++ rest ∧
            (∀ step ∈ halts, step.isHalting) ∧ (∀ point, fired point rest = []) ∧
            armed.FiresInOrder id halts before after) := by
  intro p armed
  have hp := unstarted_prepared producer stages nativeRows preparations
  have hfirst := beforeStart_arm p id
  have hsecond := ready_arm p id
  have hid : p.branch.id = producer := congrArg Branch.id hp.producer
  refine ⟨hfirst, by rw [← hid]; exact hsecond, fun operations => ?_⟩
  have hsilent := (hp.isReplaced_arm id).history operations
  have hlive := play_history armed operations
  obtain ⟨hw, hs, he⟩ := producer_foldl (p := armed) hsilent
  refine ⟨hlive, ?_, ?_, ?_, hsilent, ?_⟩
  · rw [← hlive]
    exact hw.trans hp.wired
  · rw [← hlive]
    exact hs.trans (congrArg Branch.started hp.producer)
  · rw [← hlive]
    exact he
  · rcases armed.history_cases operations with hnone | ⟨halts, rest, heq, hhalts, hrest⟩
    · exact Or.inl hnone
    · exact Or.inr ⟨halts, _, _, rest, heq, hhalts, hrest, firesInOrder hp.running hfirst hsecond hhalts⟩

/-- The pipeline is stopped, then started twice; listeners stay whose tags only read like those of the
producer's own. -/
theorem producer_replaced_sample :
    let armed := ((prepared "service" ["scan", "sort"] []
      [.register .beforeProducerStart (.named "default-wiring"),
        .register .beforeProducerStart .defaultWiring,
        .register .readyForInput (.startBranch "other")]).arm (.numbered 0)).1
    armed.listeners =
        ⟨[⟨.named "default-wiring", .announce⟩, ⟨.cacheReplay (.numbered 0), .shutDownProducer⟩],
          [⟨.startBranch "other", .announce⟩, ⟨.cacheReplay (.numbered 0), .openGate (.numbered 0)⟩]⟩ ∧
      (armed.live [.stop, .start, .start]).1.branch.started = false ∧
      ∃ halts before after rest,
        armed.history [.stop, .start, .start] = halts ++ (before ++ .run :: after) ++ rest ∧
          armed.FiresInOrder (.numbered 0) halts before after := by
  intro armed
  obtain ⟨-, -, hlives⟩ := producer_replaced "service" ["scan", "sort"] []
    [.register .beforeProducerStart (.named "default-wiring"),
      .register .beforeProducerStart .defaultWiring,
      .register .readyForInput (.startBranch "other")] (.numbered 0)
  obtain ⟨-, -, hstarted, -, -, hfires⟩ := hlives [.stop, .start, .start]
  refine ⟨by decide, hstarted, ?_⟩
  rcases hfires with ⟨hnone, -⟩ | ⟨halts, before, after, rest, heq, -, -, horder⟩
  · exact absurd (by decide) hnone
  · exact ⟨halts, before, after, rest, heq, horder⟩

end Pipeline

end RowReplay
