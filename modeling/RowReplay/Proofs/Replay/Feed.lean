import RowReplay.Pipeline.HandOff
import RowReplay.Proofs.Pipeline.Replacement
import RowReplay.Proofs.Replay.Course

/-!
A session that feeds a pipeline through its bounded hand-off. An attempt to put a row goes in steps,
and anything may come between them: the pipeline's owner starts, stops or aborts it, and its consumer
takes rows or goes away.
-/
namespace RowReplay

/-- How far the session's attempt to put a row has come. -/
inductive Attempt
  | none
  /-- It has found the pipeline running. -/
  | entered
  /-- It waits for room until a time. -/
  | waiting (deadline : Nat)
  | answered (taken : Bool)

structure Feed where
  pipeline : Pipeline
  handOff : HandOff Unit Row
  /-- The input has not been told that no more rows come. -/
  isAccepting : Bool
  course : Course
  attempt : Attempt
  /-- The rows that went into the hand-off. -/
  sent : RowSequence
  /-- The rows that the consumer took out of it. -/
  received : RowSequence

/-- The row that a session offers. -/
def Session.onOffer? (s : Session) : Option Row :=
  match s.stage with
  | .offering d => d.remaining.head?
  | _ => none

/-- What a session hears of its pipeline. -/
def Session.hear (s : Session) : PipelineEffect → Session
  | .gateOpened id => if id = s.id then s.openGate else s
  | .gateAbandoned id => if id = s.id then s.abandonGate else s
  | _ => s

namespace Feed

inductive Action
  | start
  | stop
  | abort
  /-- Someone else tells the input that no more rows come. -/
  | finishInput
  | receive
  | dropOutput
  | begin (now : Nat)
  | look (now : Nat)
  | next
  /-- The attempt begins: it looks whether the pipeline runs. -/
  | enter
  /-- The row is offered to the hand-off. -/
  | offer (now : Nat)
  /-- The attempt that waits has its turn. -/
  | review (now : Nat)
  /-- The session hears that its row was taken. -/
  | accept
  /-- The session hears that its row was refused. -/
  | refuse
  | lose

/-- A pipeline armed with a session. -/
def armed (branch : Branch) (capacity : Nat) (id : SessionId) (rows : RowSequence)
    (limits : ReplayLimits) : Feed where
  pipeline := ((Pipeline.fresh branch).arm id).1
  handOff := .fresh capacity
  isAccepting := true
  course := .armed id rows limits
  attempt := .none
  sent := []
  received := []

/-- An operation on the pipeline's life, of which the session hears. -/
def operate (f : Feed) (operation : Pipeline → Pipeline × List PipelineEffect) : Feed :=
  let (pipeline, effects) := operation f.pipeline
  { f with pipeline, course.session := effects.foldl Session.hear f.course.session }

/-- The session has gone on. Its input takes rows until the session has told it to stop. -/
def follow (f : Feed) (course : Course) : Feed :=
  { f with course, isAccepting := f.isAccepting && course.finishedCalls == 0 }

def move (f : Feed) (a : Course.Action) : Option Feed := (f.course.next? a).map f.follow

/-- The hand-off answers the attempt. -/
def hearOffer (f : Feed) (row : Row) (deadline : Nat) (handOff : HandOff Unit Row) : Offer → Feed
  | .accepted => { f with handOff, attempt := .answered true, sent := f.sent ++ [row] }
  | .refused => { f with handOff, attempt := .answered false }
  | .waiting => { f with handOff, attempt := .waiting deadline }

/-- The attempt is given up, and the room that it waited for. -/
def giveUp (f : Feed) : Feed :=
  match f.attempt with
  | .waiting _ => { f with handOff := (f.handOff.withdraw ()).1, attempt := .none }
  | _ => { f with attempt := .none }

/-! What each of these leaves alone. -/

@[simp] theorem pipeline_follow (f : Feed) (course : Course) :
    (f.follow course).pipeline = f.pipeline := rfl

@[simp] theorem course_follow (f : Feed) (course : Course) : (f.follow course).course = course := rfl

@[simp] theorem attempt_follow (f : Feed) (course : Course) :
    (f.follow course).attempt = f.attempt := rfl

@[simp] theorem sent_follow (f : Feed) (course : Course) : (f.follow course).sent = f.sent := rfl

@[simp] theorem pipeline_hearOffer (f : Feed) (row : Row) (deadline : Nat)
    (handOff : HandOff Unit Row) (offer : Offer) :
    (f.hearOffer row deadline handOff offer).pipeline = f.pipeline := by cases offer <;> rfl

@[simp] theorem pipeline_giveUp (f : Feed) : f.giveUp.pipeline = f.pipeline := by
  unfold giveUp
  split <;> rfl

@[simp] theorem course_giveUp (f : Feed) : f.giveUp.course = f.course := by
  unfold giveUp
  split <;> rfl

@[simp] theorem attempt_giveUp (f : Feed) : f.giveUp.attempt = .none := by
  unfold giveUp
  split <;> rfl

@[simp] theorem isAccepting_giveUp (f : Feed) : f.giveUp.isAccepting = f.isAccepting := by
  unfold giveUp
  split <;> rfl

@[simp] theorem sent_giveUp (f : Feed) : f.giveUp.sent = f.sent := by
  unfold giveUp
  split <;> rfl

/-- The state after an action, if the action can be taken. -/
def next? (f : Feed) : Action → Option Feed
  | .start => some (f.operate Pipeline.start)
  | .stop => some (f.operate Pipeline.stop)
  | .abort => some (f.operate Pipeline.abort)
  | .finishInput => some { f with isAccepting := false }
  | .receive =>
    match f.handOff.receive with
    | (handOff, some (row, _)) => some { f with handOff, received := f.received ++ [row] }
    | (_, none) => none
  | .dropOutput => some { f with handOff := f.handOff.close.1 }
  | .begin now => f.move (.begin now)
  | .look now => f.move (.look now)
  | .next => f.move (.next f.pipeline.running)
  | .enter =>
    match f.attempt, f.course.session.onOffer? with
    | .none, some _ =>
      some { f with attempt := if f.pipeline.running then .entered else .answered false }
    | _, _ => none
  | .offer now =>
    match f.attempt, f.course.session.onOffer? with
    | .entered, some row =>
      if f.course.clock ≤ now then
        let f := { f with course.clock := now }
        if f.isAccepting then
          let (handOff, offer) := f.handOff.offer () row
          some (f.hearOffer row (now + f.course.session.limits.putTimeout.nanos) handOff offer)
        else some { f with attempt := .answered false }
      else none
    | _, _ => none
  | .review now =>
    match f.attempt, f.course.session.onOffer? with
    | .waiting deadline, some row =>
      if f.course.clock ≤ now then
        let (handOff, offer, _) := f.handOff.review () row (deadline ≤ now)
        some ({ f with course.clock := now }.hearOffer row deadline handOff offer)
      else none
    | _, _ => none
  | .accept =>
    match f.attempt with
    | .answered true => { f with attempt := .none }.move .accept
    | _ => none
  | .refuse =>
    match f.attempt with
    | .answered false => { f with attempt := .none }.move (.refuse f.pipeline.running)
    | _ => none
  | .lose => f.giveUp.move .lose

/-- What each action does. -/
inductive Stepping (f : Feed) : Action → Feed → Prop
  | start : Stepping f .start (f.operate Pipeline.start)
  | stop : Stepping f .stop (f.operate Pipeline.stop)
  | abort : Stepping f .abort (f.operate Pipeline.abort)
  | finishInput : Stepping f .finishInput { f with isAccepting := false }
  | receive {handOff : HandOff Unit Row} {row : Row} {next : Option Unit}
    (h : f.handOff.receive = (handOff, some (row, next))) :
    Stepping f .receive { f with handOff, received := f.received ++ [row] }
  | dropOutput : Stepping f .dropOutput { f with handOff := f.handOff.close.1 }
  | begin {now : Nat} {course : Course} (h : f.course.Moving (.begin now) course) :
    Stepping f (.begin now) (f.follow course)
  | look {now : Nat} {course : Course} (h : f.course.Moving (.look now) course) :
    Stepping f (.look now) (f.follow course)
  | next {course : Course} (h : f.course.Moving (.next f.pipeline.running) course) :
    Stepping f .next (f.follow course)
  | enter {row : Row} (ha : f.attempt = .none) (ho : f.course.session.onOffer? = some row) :
    Stepping f .enter
      { f with attempt := if f.pipeline.running then .entered else .answered false }
  | shutOut {now : Nat} {row : Row} (ha : f.attempt = .entered)
    (ho : f.course.session.onOffer? = some row) (ht : f.course.clock ≤ now)
    (hn : f.isAccepting = false) :
    Stepping f (.offer now) { f with course.clock := now, attempt := .answered false }
  | offer {now : Nat} {row : Row} {handOff : HandOff Unit Row} {offer : Offer}
    (ha : f.attempt = .entered) (ho : f.course.session.onOffer? = some row)
    (ht : f.course.clock ≤ now) (hn : f.isAccepting = true)
    (h : f.handOff.offer () row = (handOff, offer)) :
    Stepping f (.offer now)
      ({ f with course.clock := now }.hearOffer row
        (now + f.course.session.limits.putTimeout.nanos) handOff offer)
  | review {now deadline : Nat} {row : Row} {handOff : HandOff Unit Row} {offer : Offer}
    {next : Option Unit} (ha : f.attempt = .waiting deadline)
    (ho : f.course.session.onOffer? = some row) (ht : f.course.clock ≤ now)
    (h : f.handOff.review () row (deadline ≤ now) = (handOff, offer, next)) :
    Stepping f (.review now)
      ({ f with course.clock := now }.hearOffer row deadline handOff offer)
  | accept {course : Course} (ha : f.attempt = .answered true) (h : f.course.Moving .accept course) :
    Stepping f .accept ({ f with attempt := .none }.follow course)
  | refuse {course : Course} (ha : f.attempt = .answered false)
    (h : f.course.Moving (.refuse f.pipeline.running) course) :
    Stepping f .refuse ({ f with attempt := .none }.follow course)
  | lose {course : Course} (h : f.course.Moving .lose course) :
    Stepping f .lose (f.giveUp.follow course)

theorem move_eq_some {f f' : Feed} {a : Course.Action} (h : f.move a = some f') :
    ∃ course, f.course.Moving a course ∧ f' = f.follow course := by
  obtain ⟨course, hc, rfl⟩ := Option.map_eq_some_iff.mp h
  exact ⟨course, Course.moving hc, rfl⟩

theorem stepping {f f' : Feed} {a : Action} (h : f.next? a = some f') : f.Stepping a f' := by
  cases a with
  | start =>
    cases h
    exact .start
  | stop =>
    cases h
    exact .stop
  | abort =>
    cases h
    exact .abort
  | finishInput =>
    cases h
    exact .finishInput
  | receive =>
    simp only [next?] at h
    split at h
    case h_1 hr =>
      cases h
      exact .receive hr
    case h_2 => cases h
  | dropOutput =>
    cases h
    exact .dropOutput
  | begin now =>
    obtain ⟨course, hc, rfl⟩ := move_eq_some h
    exact .begin hc
  | look now =>
    obtain ⟨course, hc, rfl⟩ := move_eq_some h
    exact .look hc
  | next =>
    obtain ⟨course, hc, rfl⟩ := move_eq_some h
    exact .next hc
  | enter =>
    simp only [next?] at h
    split at h
    case h_1 ha ho =>
      cases h
      exact .enter ha ho
    case h_2 => cases h
  | offer now =>
    simp only [next?] at h
    split at h
    case h_1 ha ho =>
      split at h
      case isTrue ht =>
        split at h
        case isTrue hn =>
          cases h
          exact .offer ha ho ht hn rfl
        case isFalse hn =>
          cases h
          exact .shutOut ha ho ht (by simpa using hn)
      case isFalse => cases h
    case h_2 => cases h
  | review now =>
    simp only [next?] at h
    split at h
    case h_1 ha ho =>
      split at h
      case isTrue ht =>
        cases h
        exact .review ha ho ht rfl
      case isFalse => cases h
    case h_2 => cases h
  | accept =>
    simp only [next?] at h
    split at h
    case h_1 ha =>
      obtain ⟨course, hc, rfl⟩ := move_eq_some h
      exact .accept ha hc
    case h_2 => cases h
  | refuse =>
    simp only [next?] at h
    split at h
    case h_1 ha =>
      obtain ⟨course, hc, rfl⟩ := move_eq_some h
      exact .refuse ha hc
    case h_2 => cases h
  | lose =>
    obtain ⟨course, hc, rfl⟩ := move_eq_some h
    rw [course_giveUp] at hc
    exact .lose hc

/-! The pipeline's own producer. It stays silent, so the session is the only one to send rows. -/

variable {branch : Branch} {capacity : Nat} {id : SessionId} {rows : RowSequence}
  {limits : ReplayLimits}

/-- What a step of a feed does to its pipeline is an operation on it, or nothing. -/
theorem Stepping.pipeline {f f' : Feed} {a : Action} (h : f.Stepping a f') :
    f'.pipeline = f.pipeline ∨ ∃ operation, f'.pipeline = (f.pipeline.operate operation).1 := by
  cases h with
  | start => exact Or.inr ⟨.start, rfl⟩
  | stop => exact Or.inr ⟨.stop, rfl⟩
  | abort => exact Or.inr ⟨.abort, rfl⟩
  | offer | review | lose => exact Or.inl (by simp)
  | _ => exact Or.inl rfl

theorem Stepping.isReplaced {f f' : Feed} {a : Action} (h : f.Stepping a f')
    (hr : f.pipeline.IsReplaced) : f'.pipeline.IsReplaced := by
  rcases h.pipeline with hp | ⟨operation, hp⟩
  · rw [hp]
    exact hr
  · rw [hp]
    exact hr.operate operation

/-- However a pipeline that was armed with a session is started, stopped and aborted, none of its
starts lets its own producer emit rows. -/
theorem only_sender (R : Run next? (armed branch capacity id rows limits)) (n : Nat) :
    .emitNativeRows ∉ ((R.state n).pipeline.start).2 := by
  have hreplaced := R.invariant (P := fun f => f.pipeline.IsReplaced)
    ((Pipeline.unstarted_fresh branch).isReplaced_arm id)
    (fun _ _ _ h hstep => (stepping hstep).isReplaced h) n
  exact (hreplaced.producer_operate .start).2.2

end Feed

end RowReplay
