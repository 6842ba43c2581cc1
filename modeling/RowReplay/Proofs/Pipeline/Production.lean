import RowReplay.Pipeline.Emission
import RowReplay.Proofs.Replay.Feed

/-!
A pipeline that runs its own producer, with a clock. Starting it sets the producer going, which
tries to put each row once and tells the input at the end that no more rows come.
-/
namespace RowReplay

/-! Pipelines seen from their consumer's end. -/

/-- What matters to the consumer of a pipeline, and what it may do. -/
structure Outlet (σ α : Type) where
  handOff : σ → HandOff Unit Row
  now : σ → Nat
  running : σ → Bool
  /-- The consumer that reads is told that no more rows come. -/
  AtEnd : σ → Prop
  isReceive : α → Bool
  /-- The consumer goes, or the input is told by others that no more rows come. -/
  cutsOff : α → Bool

namespace Outlet

variable {σ α : Type} {next? : σ → α → Option σ} {start : σ} {o : Outlet σ α}
  {R : Run next? start} {i l n : Nat}

def IsFull (o : Outlet σ α) (s : σ) : Prop := (o.handOff s).capacity ≤ (o.handOff s).queue.length

/-- The consumer stays and reads on to the end of its stream, and nobody but the sender ends that;
and the hand-off is never left full for as long as a producer would wait. -/
structure Consumed (o : Outlet σ α) (R : Run next? start) : Prop where
  stays : ∀ n a, (∀ m ≤ n, ¬ o.AtEnd (R.state m)) → R.event n = some a → o.cutsOff a = false
  reads : R.Just o.isReceive
  brisk : ∀ n time, R.HeldSince o.IsFull o.now time n →
    o.now (R.state n) < time + producerTimeout.nanos

/-- The pipeline runs from its start until the stream ends, which is later. -/
structure KeptRunning (o : Outlet σ α) (R : Run next? start) (i : Nat) : Prop where
  going : ∀ m ≤ i, ¬ o.AtEnd (R.state m)
  running : ∀ n, i < n → (∀ m < n, ¬ o.AtEnd (R.state m)) → o.running (R.state n) = true

/-- The same without an end, after which anything could be done. -/
structure Steady (o : Outlet σ α) (R : Run next? start) (i : Nat) : Prop where
  stays : ∀ n a, R.event n = some a → o.cutsOff a = false
  running : ∀ n, i < n → o.running (R.state n) = true
  brisk : ∀ n time, R.HeldSince o.IsFull o.now time n →
    o.now (R.state n) < time + producerTimeout.nanos

theorem Consumed.steady (h : o.Consumed R) (hr : o.KeptRunning R i)
    (hno : ∀ m, ¬ o.AtEnd (R.state m)) : o.Steady R i where
  stays n a := h.stays n a fun m _ => hno m
  running n hin := hr.running n hin fun m _ => hno m
  brisk := h.brisk

/-- What is done up to the end can be looked at by itself. -/
theorem Consumed.steady_upTo (h : o.Consumed R) (hr : o.KeptRunning R i) (hil : i < l)
    (hl : ∀ m < l, ¬ o.AtEnd (R.state m)) : o.Steady (R.upTo l) i where
  stays n a he := by
    obtain ⟨hn, he⟩ := R.event_upTo.mp he
    exact h.stays n a (fun m hm => hl m (by omega)) he
  running n hin := hr.running (min n l) (by omega) fun m hm => hl m (by omega)
  brisk n time hheld := h.brisk (min n l) time hheld.of_upTo

/-- The end comes after the start, if it comes. -/
theorem KeptRunning.lt_of_atEnd (h : o.KeptRunning R i) (hl : o.AtEnd (R.state l)) : i < l :=
  Nat.lt_of_not_le fun hli => h.going l hli hl

end Outlet

/-! The producer. -/

/-- How far a pipeline's own producer has come. -/
inductive ProducerStage
  | idle
  | emitting (emission : Emission)
  /-- It has told the input that no more rows come. -/
  | finished

/-- The branch starts to emit its rows. -/
def PipelineEffect.isEmission : PipelineEffect → Bool
  | .emitNativeRows => true
  | _ => false

structure Production where
  pipeline : Pipeline
  handOff : HandOff Unit Row
  /-- The input has not been told that no more rows come. -/
  isAccepting : Bool
  stage : ProducerStage
  /-- How far the producer's attempt to put a row has come. -/
  attempt : Attempt
  /-- How often the producer has told the input that no more rows come. -/
  finishedCalls : Nat
  sent : RowSequence
  received : RowSequence
  now : Nat

namespace Production

inductive Action
  | start
  | stop
  | abort
  /-- The pipeline is dropped, and its listeners with it. -/
  | dropPipeline
  /-- Someone else tells the input that no more rows come. -/
  | finishInput
  | receive
  | dropOutput
  | enter
  | offer
  | review
  | accept
  | refuse
  /-- The producer is through with its rows. -/
  | finish
  | pass (time : Nat)

/-- A pipeline with its own producer. -/
def fresh (branch : Branch) (capacity : Nat) : Production where
  pipeline := .fresh branch
  handOff := .fresh capacity
  isAccepting := true
  stage := .idle
  attempt := .none
  finishedCalls := 0
  sent := []
  received := []
  now := 0

/-- The row that the producer offers. -/
def onOffer? (p : Production) : Option Row :=
  match p.stage with
  | .emitting e => e.next?
  | _ => none

/-- An operation on the pipeline's life, which may set its producer going. -/
def operate (p : Production) (operation : Pipeline → Pipeline × List PipelineEffect) : Production :=
  let (pipeline, effects) := operation p.pipeline
  { p with
    pipeline
    stage :=
      if effects.any (·.isEmission) then .emitting (.start pipeline.branch.nativeRows)
      else p.stage }

/-- The hand-off answers the attempt. -/
def hearOffer (p : Production) (row : Row) (deadline : Nat) (handOff : HandOff Unit Row) :
    Offer → Production
  | .accepted => { p with handOff, attempt := .answered true, sent := p.sent ++ [row] }
  | .refused => { p with handOff, attempt := .answered false }
  | .waiting => { p with handOff, attempt := .waiting deadline }

/-- The state after an action, if the action can be taken. -/
def next? (p : Production) : Action → Option Production
  | .start => some (p.operate Pipeline.start)
  | .stop => some (p.operate Pipeline.stop)
  | .abort => some (p.operate Pipeline.abort)
  | .dropPipeline => some (p.operate Pipeline.forgetListeners)
  | .finishInput => some { p with isAccepting := false }
  | .receive =>
    match p.handOff.receive with
    | (handOff, some (row, _)) => some { p with handOff, received := p.received ++ [row] }
    | (_, none) => none
  | .dropOutput => some { p with handOff := p.handOff.close.1 }
  | .enter =>
    match p.attempt, p.onOffer? with
    | .none, some _ =>
      some { p with attempt := if p.pipeline.running then .entered else .answered false }
    | _, _ => none
  | .offer =>
    match p.attempt, p.onOffer? with
    | .entered, some row =>
      if p.isAccepting then
        let (handOff, offer) := p.handOff.offer () row
        some (p.hearOffer row (p.now + producerTimeout.nanos) handOff offer)
      else some { p with attempt := .answered false }
    | _, _ => none
  | .review =>
    match p.attempt, p.onOffer? with
    | .waiting deadline, some row =>
      let (handOff, offer, _) := p.handOff.review () row (deadline ≤ p.now)
      some (p.hearOffer row deadline handOff offer)
    | _, _ => none
  | .accept =>
    match p.attempt, p.stage with
    | .answered true, .emitting e => some { p with attempt := .none, stage := .emitting e.accepted }
    | _, _ => none
  | .refuse =>
    match p.attempt, p.stage with
    | .answered false, .emitting e => some { p with attempt := .none, stage := .emitting e.refused }
    | _, _ => none
  | .finish =>
    match p.attempt, p.stage, p.onOffer? with
    | .none, .emitting _, none =>
      some { p with
        stage := .finished, isAccepting := false, finishedCalls := p.finishedCalls + 1 }
    | _, _, _ => none
  | .pass time => if p.now ≤ time then some { p with now := time } else none

/-- What each action does. -/
inductive Stepping (p : Production) : Action → Production → Prop
  | start : Stepping p .start (p.operate Pipeline.start)
  | stop : Stepping p .stop (p.operate Pipeline.stop)
  | abort : Stepping p .abort (p.operate Pipeline.abort)
  | dropPipeline : Stepping p .dropPipeline (p.operate Pipeline.forgetListeners)
  | finishInput : Stepping p .finishInput { p with isAccepting := false }
  | receive {handOff : HandOff Unit Row} {row : Row} {next : Option Unit}
    (h : p.handOff.receive = (handOff, some (row, next))) :
    Stepping p .receive { p with handOff, received := p.received ++ [row] }
  | dropOutput : Stepping p .dropOutput { p with handOff := p.handOff.close.1 }
  | enter {e : Emission} {row : Row} (ha : p.attempt = .none) (hs : p.stage = .emitting e)
    (hr : e.next? = some row) :
    Stepping p .enter
      { p with attempt := if p.pipeline.running then .entered else .answered false }
  | shutOut {e : Emission} {row : Row} (ha : p.attempt = .entered) (hs : p.stage = .emitting e)
    (hr : e.next? = some row) (hn : p.isAccepting = false) :
    Stepping p .offer { p with attempt := .answered false }
  | offer {e : Emission} {row : Row} {handOff : HandOff Unit Row} {offer : Offer}
    (ha : p.attempt = .entered) (hs : p.stage = .emitting e) (hr : e.next? = some row)
    (hn : p.isAccepting = true) (h : p.handOff.offer () row = (handOff, offer)) :
    Stepping p .offer (p.hearOffer row (p.now + producerTimeout.nanos) handOff offer)
  | review {e : Emission} {deadline : Nat} {row : Row} {handOff : HandOff Unit Row} {offer : Offer}
    {next : Option Unit} (ha : p.attempt = .waiting deadline) (hs : p.stage = .emitting e)
    (hr : e.next? = some row)
    (h : p.handOff.review () row (deadline ≤ p.now) = (handOff, offer, next)) :
    Stepping p .review (p.hearOffer row deadline handOff offer)
  | accept {e : Emission} (ha : p.attempt = .answered true) (hs : p.stage = .emitting e) :
    Stepping p .accept { p with attempt := .none, stage := .emitting e.accepted }
  | refuse {e : Emission} (ha : p.attempt = .answered false) (hs : p.stage = .emitting e) :
    Stepping p .refuse { p with attempt := .none, stage := .emitting e.refused }
  | finish {e : Emission} (ha : p.attempt = .none) (hs : p.stage = .emitting e)
    (hr : e.next? = none) :
    Stepping p .finish
      { p with stage := .finished, isAccepting := false, finishedCalls := p.finishedCalls + 1 }
  | pass {time : Nat} (ht : p.now ≤ time) : Stepping p (.pass time) { p with now := time }

theorem onOffer?_eq_some {p : Production} {row : Row} (h : p.onOffer? = some row) :
    ∃ e, p.stage = .emitting e ∧ e.next? = some row := by
  unfold onOffer? at h
  split at h
  case h_1 e hs => exact ⟨e, hs, h⟩
  case h_2 => cases h

theorem stepping {p p' : Production} {a : Action} (h : p.next? a = some p') : p.Stepping a p' := by
  cases a with
  | start =>
    cases h
    exact .start
  | stop =>
    cases h
    exact .stop
  | abort =>
    cases h
    exact .abort
  | dropPipeline =>
    cases h
    exact .dropPipeline
  | finishInput =>
    cases h
    exact .finishInput
  | receive =>
    simp only [next?] at h
    split at h
    case h_1 hr =>
      cases h
      exact .receive hr
    case h_2 => cases h
  | dropOutput =>
    cases h
    exact .dropOutput
  | enter =>
    simp only [next?] at h
    split at h
    case h_1 ha ho =>
      cases h
      obtain ⟨e, hs, hr⟩ := onOffer?_eq_some ho
      exact .enter ha hs hr
    case h_2 => cases h
  | offer =>
    simp only [next?] at h
    split at h
    case h_1 ha ho =>
      obtain ⟨e, hs, hr⟩ := onOffer?_eq_some ho
      split at h
      case isTrue hn =>
        cases h
        exact .offer ha hs hr hn rfl
      case isFalse hn =>
        cases h
        exact .shutOut ha hs hr (by simpa using hn)
    case h_2 => cases h
  | review =>
    simp only [next?] at h
    split at h
    case h_1 ha ho =>
      cases h
      obtain ⟨e, hs, hr⟩ := onOffer?_eq_some ho
      exact .review ha hs hr rfl
    case h_2 => cases h
  | accept =>
    simp only [next?] at h
    split at h
    case h_1 ha hs =>
      cases h
      exact .accept ha hs
    case h_2 => cases h
  | refuse =>
    simp only [next?] at h
    split at h
    case h_1 ha hs =>
      cases h
      exact .refuse ha hs
    case h_2 => cases h
  | finish =>
    simp only [next?] at h
    split at h
    case h_1 ha hs hr =>
      cases h
      exact .finish ha hs (by simpa only [onOffer?, hs] using hr)
    case h_2 => cases h
  | pass time =>
    simp only [next?] at h
    split at h
    case isTrue ht =>
      cases h
      exact .pass ht
    case isFalse => cases h

/-! What is seen of it. -/

variable {p p' : Production} {a : Action}

@[simp] def Action.isReceive : Action → Bool
  | .receive => true
  | _ => false

@[simp] def Action.cutsOff : Action → Bool
  | .finishInput | .dropOutput => true
  | _ => false

/-- The producer goes on. -/
@[simp] def Action.isOfProducer : Action → Bool
  | .enter | .offer | .review | .accept | .refuse | .finish => true
  | _ => false

/-- The pipeline's life goes on. -/
@[simp] def Action.isOperation : Action → Bool
  | .start | .stop | .abort | .dropPipeline => true
  | _ => false

/-- The pipeline's listeners fire, or are dropped. -/
def Action.isNews : Action → Bool
  | .start | .abort | .dropPipeline => true
  | _ => false

/-- Nothing is queued, and nothing can come any more: the consumer that reads is told so. -/
structure AtEnd (p : Production) : Prop where
  queue : p.handOff.queue = []
  input : p.isAccepting = false
  attempt : ∀ deadline, p.attempt ≠ .waiting deadline

def outlet : Outlet Production Action :=
  ⟨handOff, now, fun p => p.pipeline.running, AtEnd, Action.isReceive, Action.cutsOff⟩

/-! The start. -/

theorem any_isEmission {effects : List PipelineEffect} (h : .emitNativeRows ∉ effects) :
    effects.any (·.isEmission) = false := by
  refine List.any_eq_false.mpr fun effect he => ?_
  cases effect with
  | emitNativeRows => exact (h he).elim
  | _ => exact nofun

/-- An operation that does not set the producer going leaves it where it is. -/
theorem operate_of_silent {operation : Pipeline → Pipeline × List PipelineEffect}
    (hn : .emitNativeRows ∉ (operation p.pipeline).2) :
    p.operate operation = { p with pipeline := (operation p.pipeline).1 } := by
  simp only [operate, any_isEmission hn]
  rfl

/-- A pipeline without listeners goes on without them, and leaves its producer alone. -/
theorem Stepping.operates (h : p.Stepping a p') (hl : p.pipeline.listeners = .empty)
    (ha : a.isOperation = true) :
    ∃ pipeline : Pipeline, pipeline.listeners = .empty ∧ p' = { p with pipeline } := by
  have hreplaced := Pipeline.isReplaced_of_empty hl
  cases h with
  | start =>
    have hsilent := (hreplaced.producer_operate .start).2.2
    exact ⟨p.pipeline.start.1, p.pipeline.listeners_start, operate_of_silent hsilent⟩
  | stop =>
    have hsilent := (hreplaced.producer_operate .stop).2.2
    exact ⟨p.pipeline.stop.1, hl, operate_of_silent hsilent⟩
  | abort =>
    have hsilent := (hreplaced.producer_operate .abort).2.2
    exact ⟨p.pipeline.abort.1, rfl, operate_of_silent hsilent⟩
  | dropPipeline =>
    exact ⟨p.pipeline.forgetListeners.1, rfl, operate_of_silent (Pipeline.silent_abandonedGates _)⟩
  | _ => cases ha

/-- The producer has been set going, and has done nothing yet. -/
def started (branch : Branch) (capacity : Nat) : Production :=
  { fresh branch capacity with
    pipeline := (Pipeline.fresh branch).start.1
    stage := .emitting (.start branch.nativeRows) }

theorem operate_start_fresh (branch : Branch) (capacity now : Nat) :
    { fresh branch capacity with now }.operate Pipeline.start =
      { started branch capacity with now } := by
  simp [operate, started, fresh, Pipeline.start, Pipeline.fire, Pipeline.actAll, Pipeline.act,
    Pipeline.fresh, Pipeline.defaultListeners, Listeners.atPoint, Listeners.take,
    Listeners.setPoint, PipelineEffect.isEmission]

/-- Nothing happens to a pipeline before its listeners fire, but that time passes. -/
theorem Stepping.fresh {branch : Branch} {capacity now : Nat}
    (h : { fresh branch capacity with now }.Stepping a p') (ha : a.cutsOff = false)
    (hn : a.isNews = false) : p' = { fresh branch capacity with now := p'.now } := by
  cases h with
  | start | abort | dropPipeline => cases hn
  | finishInput | dropOutput => cases ha
  | receive hr => cases hr
  | stop | pass => rfl
  | enter _ hs | shutOut _ hs | offer _ hs | review _ hs | accept _ hs | refuse _ hs
  | finish _ hs => cases hs

/-! The producer starts once. -/

/-- The producer has not been set going, or will not be again; and it tries to put only a row that
it has. -/
def StartsOnce (p : Production) : Prop :=
  p.stage = .idle ∧ p.attempt = .none ∨
    p.pipeline.listeners = .empty ∧ ∀ e, p.stage = .emitting e → e.next? = none → p.attempt = .none

theorem Stepping.startsOnce (h : p.Stepping a p') (hs : p.StartsOnce) : p'.StartsOnce := by
  rcases hs with ⟨hidle, ha⟩ | ⟨hl, hrow⟩
  · cases h with
    | start => exact Or.inr ⟨p.pipeline.listeners_start, fun _ _ _ => ha⟩
    | abort | dropPipeline => exact Or.inr ⟨rfl, fun _ _ _ => ha⟩
    | stop | finishInput | receive | dropOutput | pass => exact Or.inl ⟨hidle, ha⟩
    | enter _ hs | shutOut _ hs | offer _ hs | review _ hs | accept _ hs | refuse _ hs
    | finish _ hs => rw [hidle] at hs; cases hs
  · have hoperates := h.operates hl
    have hoffers {e : Emission} {row : Row} {attempt : Attempt} (hs : p.stage = .emitting e)
        (hr : e.next? = some row) :
        ∀ e', p.stage = .emitting e' → e'.next? = none → attempt = .none := by
      intro e' hs' hnone
      rw [hs] at hs'
      cases hs'
      rw [hr] at hnone
      cases hnone
    cases h with
    | start | stop | abort | dropPipeline =>
      obtain ⟨pipeline, hl, hp⟩ := hoperates rfl
      rw [hp]
      exact Or.inr ⟨hl, hrow⟩
    | finishInput | receive | dropOutput | pass => exact Or.inr ⟨hl, hrow⟩
    | accept | refuse => exact Or.inr ⟨hl, fun _ _ _ => rfl⟩
    | finish ha => exact Or.inr ⟨hl, fun _ _ _ => ha⟩
    | enter _ hs hr | shutOut _ hs hr => exact Or.inr ⟨hl, hoffers hs hr⟩
    | @offer _ _ _ offer _ hs hr | @review _ _ _ _ offer _ _ hs hr =>
      cases offer <;> exact Or.inr ⟨hl, hoffers hs hr⟩

/-- A producer whose rows are over does not put any. -/
theorem attempt_eq_none {branch : Branch} {capacity : Nat} {e : Emission}
    (hp : Reaches next? (fresh branch capacity) p) (hs : p.stage = .emitting e)
    (hr : e.next? = none) : p.attempt = .none := by
  obtain ⟨R, n, rfl⟩ := hp.run
  have honce := R.invariant (P := StartsOnce) (Or.inl ⟨rfl, rfl⟩)
    (fun _ _ _ honce hnext => (stepping hnext).startsOnce honce) n
  rcases honce with ⟨hidle, -⟩ | ⟨-, hrow⟩
  · rw [hidle] at hs
    cases hs
  · exact hrow e hs hr

end Production

end RowReplay
