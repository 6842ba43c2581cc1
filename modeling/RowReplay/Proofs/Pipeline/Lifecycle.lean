import RowReplay.Pipeline.Basic

/-!
A pipeline's life, step by step. Starting, stopping and aborting are lists of steps, each with what
others see of it; so it can be said what comes before what, in one operation and in a whole life.
-/
namespace RowReplay

namespace Branch

def apply (b : Branch) : Step → Branch
  | .stopAll => b.stopAll
  | .setOutputDone i => { b with stages := b.stages.modify i Stage.setOutputDone }
  | .dispose i => { b with stages := b.stages.modify i Stage.dispose }
  | .markStopped i => { b with stages := b.stages.modify i Stage.markStopped }

def stageNames (b : Branch) : List String := b.stages.map Stage.name

/-- The branch has been asked to stop, and every stage has gone through its whole shutdown. -/
structure IsShutDown (b : Branch) : Prop where
  stopRequested : b.stopRequested = true
  stages : ∀ stage ∈ b.stages, stage.outputDone ∧ stage.disposed ∧ stage.stopped

theorem isShutDown_shutDown (b : Branch) : b.shutDown.IsShutDown := by
  refine ⟨rfl, fun stage hs => ?_⟩
  obtain ⟨s, -, rfl⟩ := List.mem_map.mp hs
  exact ⟨rfl, rfl, rfl⟩

end Branch

/-- The listener wires or starts the pipeline's own producer. -/
def ListenerAction.runsProducer : ListenerAction → Bool
  | .wireProducer | .startProducer => true
  | _ => false

namespace Pipeline

inductive Step
  /-- The listeners of a point are taken out, to fire. -/
  | takeOut (point : ExecutionPoint)
  | firing (point : ExecutionPoint) (listener : Listener)
  | wire
  | startBranch
  | shutDown (step : Branch.Step)
  | openGate (session : SessionId)
  | announce (tag : ListenerTag)
  | run
  | halt
  /-- All listeners are dropped. -/
  | forget (dropped : List Listener)
  | log (event : PipelineEvent)

def apply (p : Pipeline) : Step → Pipeline
  | .takeOut point => { p with listeners := p.listeners.take point }
  | .wire => { p with wired := true }
  | .startBranch => { p with branch := { p.branch with started := true } }
  | .shutDown step => { p with branch := p.branch.apply step }
  | .run => { p with running := true }
  | .halt => { p with running := false }
  | .forget _ => { p with listeners := .empty }
  | .firing .. | .openGate _ | .announce _ | .log _ => p

/-- What others see of a step. -/
def Step.effects : Step → List PipelineEffect
  | .firing point listener => [.log (.firing point listener.tag)]
  | .startBranch => [.emitNativeRows]
  | .openGate session => [.gateOpened session]
  | .announce tag => [.announced tag]
  | .forget dropped => abandonedGates dropped
  | .log event => [.log event]
  | .shutDown step => [.shutDown step]
  | .run => [.flag true]
  | .halt => [.flag false]
  | .takeOut _ | .wire => []

/-- The pipeline after some steps, and what others see of them. -/
def play (p : Pipeline) (steps : List Step) : Pipeline × List PipelineEffect :=
  (steps.foldl apply p, steps.flatMap Step.effects)

/-- Stages are shut down one after the other, the first of them at a place. -/
def stageSteps (branch : String) (stages : List String) (place : Nat) : List Step :=
  (stages.zipIdx place).flatMap fun (name, i) =>
    [.shutDown (.setOutputDone i), .shutDown (.dispose i), .shutDown (.markStopped i),
      .log (.stageStopped branch name)]

def shutDownSteps (branch : String) (stages : List String) : List Step :=
  .shutDown .stopAll :: stageSteps branch stages 0 ++ [.log (.producerShutDown branch)]

/-- The steps of a listener that fires. -/
def actSteps (branch : String) (stages : List String) (listener : Listener) : List Step :=
  match listener.action with
  | .wireProducer => [.wire]
  | .startProducer => [.startBranch]
  | .shutDownProducer => shutDownSteps branch stages
  | .openGate session => [.openGate session]
  | .announce => [.announce listener.tag]

def actAllSteps (branch : String) (stages : List String) (point : ExecutionPoint)
    (list : List Listener) : List Step :=
  list.flatMap fun listener => .firing point listener :: actSteps branch stages listener

def fireSteps (p : Pipeline) (point : ExecutionPoint) : List Step :=
  .takeOut point ::
    actAllSteps p.branch.id p.branch.stageNames point (p.listeners.atPoint point)

def startSteps (p : Pipeline) : List Step :=
  p.fireSteps .beforeProducerStart ++
    .run :: .log (.running p.branch.id) :: p.fireSteps .readyForInput

/-! Operations and their steps are the same. -/

theorem play_append (p : Pipeline) (first second : List Step) :
    p.play (first ++ second) =
      (((p.play first).1.play second).1, (p.play first).2 ++ ((p.play first).1.play second).2) := by
  simp only [play, List.foldl_append, List.flatMap_append]

theorem play_cons (p : Pipeline) (step : Step) (steps : List Step) :
    p.play (step :: steps) =
      (((p.apply step).play steps).1, step.effects ++ ((p.apply step).play steps).2) := rfl

/-- What no step changes. -/
theorem branch_apply (p : Pipeline) (step : Step) :
    (p.apply step).branch.id = p.branch.id ∧
      (p.apply step).branch.stageNames = p.branch.stageNames := by
  have hmodify : ∀ (stages : List Stage) (i : Nat) (f : Stage → Stage), (∀ s, (f s).name = s.name) →
      (stages.modify i f).map Stage.name = stages.map Stage.name := by
    intro stages i f hf
    induction stages generalizing i with
    | nil => simp
    | cons s stages ih => cases i <;> simp [hf, ih]
  cases step with
  | shutDown step =>
    cases step with
    | stopAll => exact ⟨rfl, rfl⟩
    | setOutputDone i | dispose i | markStopped i => exact ⟨rfl, hmodify _ i _ fun _ => rfl⟩
  | _ => exact ⟨rfl, rfl⟩

theorem branch_foldl (p : Pipeline) (steps : List Step) :
    (steps.foldl apply p).branch.id = p.branch.id ∧
      (steps.foldl apply p).branch.stageNames = p.branch.stageNames := by
  induction steps generalizing p with
  | nil => exact ⟨rfl, rfl⟩
  | cons step steps ih =>
    obtain ⟨hid, hnames⟩ := ih (p.apply step)
    obtain ⟨hid', hnames'⟩ := p.branch_apply step
    exact ⟨hid.trans hid', hnames.trans hnames'⟩

theorem modify_middle {α : Type} (before after : List α) (a : α) (f : α → α) :
    (before ++ a :: after).modify before.length f = before ++ f a :: after := by
  induction before with
  | nil => rfl
  | cons b before ih => simp [ih]

theorem foldl_stageSteps (branch : String) (p : Pipeline) (before coming : List Stage)
    (hs : p.branch.stages = before ++ coming) :
    (stageSteps branch (coming.map Stage.name) before.length).foldl apply p =
      { p with branch.stages :=
          before ++ coming.map fun s => s.setOutputDone.dispose.markStopped } := by
  induction coming generalizing p before with
  | nil =>
    rw [List.append_nil] at hs
    simp only [List.map_nil, List.append_nil, ← hs]
    rfl
  | cons s coming ih =>
    -- The first of the stages to come goes through its shutdown, and is then one of those before.
    have hstage : (((p.apply (.shutDown (.setOutputDone before.length))).apply
        (.shutDown (.dispose before.length))).apply (.shutDown (.markStopped before.length))) =
        { p with branch.stages := before ++ s.setOutputDone.dispose.markStopped :: coming } := by
      simp only [apply, Branch.apply, hs, modify_middle]
    have hlast : before.length + 1 = (before ++ [s.setOutputDone.dispose.markStopped]).length := by
      simp
    have hrest := ih { p with branch.stages := before ++ s.setOutputDone.dispose.markStopped :: coming }
      (before ++ [s.setOutputDone.dispose.markStopped]) (by simp)
    rw [← hlast] at hrest
    have hcons : stageSteps branch ((s :: coming).map Stage.name) before.length =
        .shutDown (.setOutputDone before.length) :: .shutDown (.dispose before.length) ::
          .shutDown (.markStopped before.length) :: .log (.stageStopped branch s.name) ::
            stageSteps branch (coming.map Stage.name) (before.length + 1) := rfl
    rw [hcons, List.foldl_cons, List.foldl_cons, List.foldl_cons, hstage, List.foldl_cons]
    exact hrest.trans (by simp)

theorem play_shutDownSteps (p : Pipeline) :
    p.play (shutDownSteps p.branch.id p.branch.stageNames) =
      ({ p with branch := p.branch.shutDown }, shutDownEffects p.branch) := by
  have hstages := foldl_stageSteps p.branch.id { p with branch := p.branch.stopAll } []
    p.branch.stages rfl
  refine Prod.ext ?_ ?_
  · rw [play, shutDownSteps, List.foldl_append, List.foldl_cons]
    exact hstages
  · simp [play, shutDownSteps, shutDownEffects, stageSteps, Branch.stageNames, Step.effects,
      List.zipIdx_map, List.flatMap_map, List.flatMap_assoc]

theorem play_actSteps (p : Pipeline) (listener : Listener) :
    p.play (actSteps p.branch.id p.branch.stageNames listener) = p.act listener := by
  unfold actSteps act
  cases listener.action with
  | shutDownProducer => exact play_shutDownSteps p
  | _ => rfl

/-- What is done in steps leaves the branch its name and its stages. -/
theorem branch_of_play {p : Pipeline} {steps : List Step} {r : Pipeline × List PipelineEffect}
    (h : p.play steps = r) :
    r.1.branch.id = p.branch.id ∧ r.1.branch.stageNames = p.branch.stageNames := by
  rw [← h]
  exact p.branch_foldl steps

theorem play_actAllSteps (p : Pipeline) (point : ExecutionPoint) (list : List Listener) :
    p.play (actAllSteps p.branch.id p.branch.stageNames point list) = p.actAll point list := by
  induction list generalizing p with
  | nil => rfl
  | cons listener list ih =>
    have hact := p.play_actSteps listener
    -- The steps to come name the branch and its stages, and these are the same after the first.
    obtain ⟨hid, hnames⟩ := branch_of_play hact
    have hrest := ih (p.act listener).1
    rw [hid, hnames] at hrest
    rw [actAllSteps, List.flatMap_cons, List.cons_append, play_cons, play_append]
    simp only [apply, hact]
    rw [← actAllSteps, hrest]
    rfl

theorem play_fireSteps (p : Pipeline) (point : ExecutionPoint) :
    p.play (p.fireSteps point) = p.fire point := by
  rw [fireSteps, play_cons]
  exact play_actAllSteps { p with listeners := p.listeners.take point } point _

/-- What others see of listeners that fire one after the other. -/
def firingEffects (p : Pipeline) (point : ExecutionPoint) (list : List Listener) :
    List PipelineEffect :=
  list.flatMap fun listener => .log (.firing point listener.tag) :: (p.act listener).2

theorem effects_fireSteps (p : Pipeline) (point : ExecutionPoint) :
    (p.fireSteps point).flatMap Step.effects =
      p.firingEffects point (p.listeners.atPoint point) := by
  have hact : ∀ listener, (actSteps p.branch.id p.branch.stageNames listener).flatMap Step.effects =
      (p.act listener).2 := fun listener => congrArg Prod.snd (p.play_actSteps listener)
  rw [fireSteps, actAllSteps, List.flatMap_cons, List.flatMap_assoc, firingEffects]
  simp only [List.flatMap_cons, hact]
  rfl

theorem listeners_act (p : Pipeline) (listener : Listener) :
    (p.act listener).1.listeners = p.listeners := by
  unfold act
  split <;> rfl

theorem listeners_actAll (p : Pipeline) (point : ExecutionPoint) (list : List Listener) :
    (p.actAll point list).1.listeners = p.listeners := by
  induction list generalizing p with
  | nil => rfl
  | cons listener list ih => exact (ih _).trans (listeners_act p listener)

theorem listeners_fire (p : Pipeline) (point : ExecutionPoint) :
    (p.fire point).1.listeners = p.listeners.take point := listeners_actAll ..

theorem play_startSteps (p : Pipeline) : p.play p.startSteps = p.start := by
  have hbefore := p.play_fireSteps .beforeProducerStart
  have hlisteners := p.listeners_fire .beforeProducerStart
  have hbranch := branch_of_play hbefore
  obtain ⟨first, hfirst⟩ : ∃ first : Pipeline,
      first = { (p.fire .beforeProducerStart).1 with running := true } := ⟨_, rfl⟩
  obtain ⟨hid, hnames⟩ : first.branch.id = p.branch.id ∧
      first.branch.stageNames = p.branch.stageNames := by
    rw [hfirst]
    exact hbranch
  -- What fires at the second point was registered for it when the start began.
  have hready : first.listeners.ready = p.listeners.ready := by
    rw [hfirst]
    dsimp only
    rw [hlisteners]
    rfl
  have hsteps : first.fireSteps .readyForInput = p.fireSteps .readyForInput := by
    simp only [fireSteps, Listeners.atPoint, hid, hnames, hready]
  have hafter := first.play_fireSteps .readyForInput
  obtain ⟨hid', -⟩ := branch_of_play hafter
  rw [hsteps] at hafter
  rw [startSteps, play_append, hbefore, play_cons, play_cons]
  simp only [apply, ← hfirst, hafter, start, hid', hid]
  rfl

/-- A start as others see it: the listeners of the first point fire, the running flag is set, and
the listeners of the second fire. -/
theorem effects_start (p : Pipeline) :
    p.start.2 =
      p.firingEffects .beforeProducerStart (p.listeners.atPoint .beforeProducerStart) ++
        .flag true :: .log (.running p.branch.id) ::
          p.firingEffects .readyForInput (p.listeners.atPoint .readyForInput) := by
  rw [← effects_fireSteps, ← effects_fireSteps, ← p.play_startSteps]
  exact List.flatMap_append

/-! Whole lives. -/

inductive Operation
  | start
  | stop
  | abort
  deriving DecidableEq

def operate (p : Pipeline) : Operation → Pipeline × List PipelineEffect
  | .start => p.start
  | .stop => p.stop
  | .abort => p.abort

def operationSteps (p : Pipeline) : Operation → List Step
  | .start => p.startSteps
  | .stop => [.halt, .log (.stopped p.branch.id)]
  | .abort => [.halt, .forget (p.listeners.beforeStart ++ p.listeners.ready)]

theorem play_operationSteps (p : Pipeline) (operation : Operation) :
    p.play (p.operationSteps operation) = p.operate operation := by
  cases operation with
  | start => exact p.play_startSteps
  | stop => rfl
  | abort => simp [play, operationSteps, apply, Step.effects, operate, abort, forgetListeners]

/-- Operations, one after the other. -/
def live (p : Pipeline) : List Operation → Pipeline × List PipelineEffect
  | [] => (p, [])
  | operation :: rest =>
    let (p, effects) := p.operate operation
    let (p, more) := p.live rest
    (p, effects ++ more)

/-- All steps of these operations. -/
def history (p : Pipeline) : List Operation → List Step
  | [] => []
  | operation :: rest => p.operationSteps operation ++ (p.operate operation).1.history rest

theorem play_history (p : Pipeline) (operations : List Operation) :
    p.play (p.history operations) = p.live operations := by
  induction operations generalizing p with
  | nil => rfl
  | cons operation rest ih => rw [history, play_append, play_operationSteps, ih, live]

/-- The listeners that fire at a point, in order. -/
def fired (point : ExecutionPoint) (steps : List Step) : List Listener :=
  steps.filterMap fun
    | .firing place listener => if place = point then some listener else none
    | _ => none

variable {point : ExecutionPoint} {operations : List Operation}

theorem fired_append (point : ExecutionPoint) (first second : List Step) :
    fired point (first ++ second) = fired point first ++ fired point second :=
  List.filterMap_append

theorem mem_abandonedGates {dropped : List Listener} {effect : PipelineEffect}
    (h : effect ∈ abandonedGates dropped) : ∃ session, effect = .gateAbandoned session := by
  obtain ⟨listener, -, hl⟩ := List.mem_filterMap.mp h
  split at hl
  · exact ⟨_, (Option.some.inj hl).symm⟩
  · cases hl

/-- To drop listeners does not run the producer. -/
theorem silent_abandonedGates (dropped : List Listener) :
    .emitNativeRows ∉ abandonedGates dropped := by
  intro h
  obtain ⟨session, hgate⟩ := mem_abandonedGates h
  cases hgate

/-- What an action may do in a step. -/
inductive ActsBy : ListenerAction → Step → Prop
  | wire : ActsBy .wireProducer .wire
  | start : ActsBy .startProducer .startBranch
  | shutDown (step : Branch.Step) : ActsBy .shutDownProducer (.shutDown step)
  | log (event : PipelineEvent) : ActsBy .shutDownProducer (.log event)
  | openGate (session : SessionId) : ActsBy (.openGate session) (.openGate session)
  | announce (tag : ListenerTag) : ActsBy .announce (.announce tag)

theorem mem_actSteps {branch : String} {stages : List String} {listener : Listener} {step : Step}
    (h : step ∈ actSteps branch stages listener) : ActsBy listener.action step := by
  unfold actSteps at h
  cases ha : listener.action with
  | shutDownProducer =>
    simp only [ha, shutDownSteps, stageSteps, List.cons_append, List.mem_cons, List.mem_append,
      List.mem_flatMap, List.not_mem_nil, or_false] at h
    rcases h with rfl | ⟨-, -, rfl | rfl | rfl | rfl⟩ | rfl <;> constructor
  | wireProducer | startProducer | openGate | announce =>
    simp only [ha, List.mem_singleton] at h
    subst h
    constructor

/-- What the firing of a point consists of. -/
theorem mem_fireSteps {p : Pipeline} {step : Step} (h : step ∈ p.fireSteps point) :
    step = .takeOut point ∨ ∃ listener ∈ p.listeners.atPoint point,
      step = .firing point listener ∨ ActsBy listener.action step := by
  rcases List.mem_cons.mp h with rfl | h
  · exact Or.inl rfl
  obtain ⟨listener, hl, h⟩ := List.mem_flatMap.mp h
  rcases List.mem_cons.mp h with rfl | h
  · exact Or.inr ⟨listener, hl, Or.inl rfl⟩
  · exact Or.inr ⟨listener, hl, Or.inr (mem_actSteps h)⟩

/-- No listener fires while another acts. -/
theorem fired_actSteps (point : ExecutionPoint) (branch : String) (stages : List String)
    (listener : Listener) : fired point (actSteps branch stages listener) = [] := by
  refine List.filterMap_eq_nil_iff.mpr fun step hs => ?_
  have hacts := mem_actSteps hs
  generalize listener.action = action at hacts
  cases hacts <;> rfl

theorem fired_actAllSteps (branch : String) (stages : List String) (place : ExecutionPoint)
    (list : List Listener) :
    fired point (actAllSteps branch stages place list) = if place = point then list else [] := by
  induction list with
  | nil => simp [actAllSteps, fired]
  | cons listener list ih =>
    have hcons : actAllSteps branch stages place (listener :: list) =
        [.firing place listener] ++ actSteps branch stages listener ++
          actAllSteps branch stages place list := rfl
    rw [hcons, fired_append, fired_append, fired_actSteps, ih]
    by_cases hp : place = point <;> simp [fired, hp]

theorem fired_fireSteps (p : Pipeline) (place : ExecutionPoint) :
    fired point (p.fireSteps place) = if place = point then p.listeners.atPoint place else [] :=
  fired_actAllSteps ..

theorem fired_startSteps (p : Pipeline) :
    fired point p.startSteps = p.listeners.atPoint point := by
  have hskip : ∀ steps, fired point (.run :: .log (.running p.branch.id) :: steps) =
      fired point steps := fun _ => rfl
  rw [startSteps, fired_append, hskip, fired_fireSteps, fired_fireSteps]
  cases point <;> simp

theorem listeners_start (p : Pipeline) : p.start.1.listeners = .empty := by
  simp only [start, listeners_fire]
  rfl

/-- Whoever has no listeners fires none. -/
theorem fired_of_empty {p : Pipeline} (h : p.listeners = .empty) (operations : List Operation)
    (point : ExecutionPoint) : fired point (p.history operations) = [] := by
  induction operations generalizing p with
  | nil => rfl
  | cons operation rest ih =>
    rw [history, fired_append]
    have hnow : fired point (p.operationSteps operation) = [] := by
      cases operation with
      | start =>
        refine (fired_startSteps p).trans ?_
        rw [h]
        cases point <;> rfl
      | stop | abort => rfl
    have hlater : (p.operate operation).1.listeners = .empty := by
      cases operation with
      | start => exact p.listeners_start
      | stop => exact h
      | abort => rfl
    rw [hnow, ih hlater, List.nil_append]

/-- The steps of a stop. -/
def Step.isHalting : Step → Bool
  | .halt | .log (.stopped _) => true
  | _ => false

/-- The listeners of a pipeline fire in its first start, if it has not been aborted before. -/
theorem history_cases (p : Pipeline) (operations : List Operation) :
    (.start ∉ operations.takeWhile (· ≠ .abort) ∧ ∀ point, fired point (p.history operations) = []) ∨
      ∃ halts rest, p.history operations = halts ++ p.startSteps ++ rest ∧
        (∀ step ∈ halts, step.isHalting) ∧ ∀ point, fired point rest = [] := by
  induction operations generalizing p with
  | nil => exact Or.inl ⟨List.not_mem_nil, fun _ => rfl⟩
  | cons operation rest ih =>
    cases operation with
    | start =>
      exact Or.inr ⟨[], _, rfl, by simp, fired_of_empty p.listeners_start rest⟩
    | stop =>
      rcases ih p.stop.1 with ⟨hstart, hnone⟩ | ⟨halts, more, heq, hhalts, hmore⟩
      · exact Or.inl ⟨by simpa using hstart, hnone⟩
      · refine Or.inr ⟨[.halt, .log (.stopped p.branch.id)] ++ halts, more, ?_, ?_, hmore⟩
        · rw [history, List.append_assoc, List.append_assoc, ← List.append_assoc halts]
          exact congrArg _ heq
        · simpa [Step.isHalting] using hhalts
    | abort =>
      refine Or.inl ⟨by simp, fun point => ?_⟩
      rw [history, fired_append]
      exact fired_of_empty rfl rest point

/-! The running flag. -/

/-- What a step sets the running flag to. -/
def Step.running? : Step → Option Bool
  | .run => some true
  | .halt => some false
  | _ => none

theorem running?_of_mem_fireSteps {p : Pipeline} {step : Step} (h : step ∈ p.fireSteps point) :
    step.running? = none := by
  rcases mem_fireSteps h with rfl | ⟨listener, -, rfl | hacts⟩
  · rfl
  · rfl
  · generalize listener.action = action at hacts
    cases hacts <;> rfl

theorem running_foldl {p : Pipeline} {steps : List Step} {flag : Bool}
    (h : ∀ step ∈ steps, step.running? ≠ some (!flag)) (hp : p.running = flag) :
    (steps.foldl apply p).running = flag := by
  induction steps generalizing p with
  | nil => exact hp
  | cons step steps ih =>
    rw [List.forall_mem_cons] at h
    refine ih h.2 ?_
    have hstep := h.1
    cases step with
    | run | halt => cases flag <;> simp_all [Step.running?, apply]
    | _ => exact hp

/-- No listener that fires sets the running flag. -/
theorem flag_not_mem_firingEffects (p : Pipeline) (point : ExecutionPoint) (list : List Listener)
    (running : Bool) : .flag running ∉ p.firingEffects point list := by
  intro h
  obtain ⟨listener, -, h⟩ := List.mem_flatMap.mp h
  rw [List.mem_cons] at h
  rcases h with h | h
  · cases h
  · rw [act] at h
    cases ha : listener.action <;> simp [ha, shutDownEffects] at h

/-! The pipeline's own producer. -/

/-- The producer is wired or started. -/
def Step.runsProducer : Step → Bool
  | .wire | .startBranch => true
  | _ => false

/-- No listener would wire or start the producer. -/
def IsReplaced (p : Pipeline) : Prop :=
  ∀ point, ∀ listener ∈ p.listeners.atPoint point, listener.action.runsProducer = false

theorem IsReplaced.fireSteps {p : Pipeline} (h : p.IsReplaced) (point : ExecutionPoint) :
    ∀ step ∈ p.fireSteps point, step.runsProducer = false := by
  intro step hs
  rcases mem_fireSteps hs with rfl | ⟨listener, hl, rfl | hacts⟩
  · rfl
  · rfl
  · have haction := h point listener hl
    generalize listener.action = action at hacts haction
    cases hacts with
    | wire | start => cases haction
    | _ => rfl

/-- Unless a step runs the producer, it is left as it was and emits nothing. -/
theorem producer_foldl {p : Pipeline} {steps : List Step}
    (h : ∀ step ∈ steps, step.runsProducer = false) :
    (steps.foldl apply p).wired = p.wired ∧
      (steps.foldl apply p).branch.started = p.branch.started ∧
      .emitNativeRows ∉ steps.flatMap Step.effects := by
  induction steps generalizing p with
  | nil => exact ⟨rfl, rfl, List.not_mem_nil⟩
  | cons step steps ih =>
    rw [List.forall_mem_cons] at h
    obtain ⟨hw, hs, he⟩ := ih (p := p.apply step) h.2
    have hstep := h.1
    rw [List.foldl_cons, hw, hs, List.flatMap_cons, List.mem_append, not_or]
    cases step with
    | wire | startBranch => cases hstep
    | shutDown step => cases step <;> exact ⟨rfl, rfl, by simp [Step.effects], he⟩
    | forget dropped => exact ⟨rfl, rfl, silent_abandonedGates dropped, he⟩
    | takeOut => exact ⟨rfl, rfl, List.not_mem_nil, he⟩
    | firing | openGate | announce | run | halt | log =>
      exact ⟨rfl, rfl, by simp [Step.effects], he⟩

theorem isReplaced_of_empty {p : Pipeline} (h : p.listeners = .empty) : p.IsReplaced := by
  intro point listener hl
  rw [h] at hl
  cases point <;> cases hl

theorem IsReplaced.operate {p : Pipeline} (h : p.IsReplaced) (operation : Operation) :
    (p.operate operation).1.IsReplaced := by
  cases operation with
  | start => exact isReplaced_of_empty p.listeners_start
  | stop => exact h
  | abort => exact isReplaced_of_empty rfl

theorem IsReplaced.operationSteps {p : Pipeline} (h : p.IsReplaced) (operation : Operation) :
    ∀ step ∈ p.operationSteps operation, step.runsProducer = false := by
  intro step hs
  cases operation with
  | start =>
    rcases List.mem_append.mp hs with hs | hs
    · exact h.fireSteps _ step hs
    · simp only [List.mem_cons] at hs
      rcases hs with rfl | rfl | hs
      · rfl
      · rfl
      · exact h.fireSteps _ step hs
  | stop | abort =>
    simp only [Pipeline.operationSteps, List.mem_cons, List.not_mem_nil, or_false] at hs
    rcases hs with rfl | rfl <;> rfl

theorem IsReplaced.history {p : Pipeline} (h : p.IsReplaced) (operations : List Operation) :
    ∀ step ∈ p.history operations, step.runsProducer = false := by
  induction operations generalizing p with
  | nil => exact fun _ hs => nomatch hs
  | cons operation rest ih =>
    intro step hs
    rcases List.mem_append.mp hs with hs | hs
    · exact h.operationSteps operation step hs
    · exact ih (h.operate operation) step hs

/-- No operation runs a producer that is replaced. -/
theorem IsReplaced.producer_operate {p : Pipeline} (h : p.IsReplaced) (operation : Operation) :
    (p.operate operation).1.wired = p.wired ∧
      (p.operate operation).1.branch.started = p.branch.started ∧
      .emitNativeRows ∉ (p.operate operation).2 := by
  rw [← p.play_operationSteps operation]
  exact producer_foldl (h.operationSteps operation)

/-! A producer that is not replaced. -/

variable {list : List Listener}

end Pipeline

end RowReplay
