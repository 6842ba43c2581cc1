import RowReplay.Proofs.Replay.ClosedInput

/-!
A session that feeds a pipeline, with a clock. Whoever reads the clock sees the same time, and the
timer of a session that waits for its gate fires when its time is over: no time passes beyond that as
long as the gate is shut and the session waits. The pipeline may be dropped.
-/
namespace RowReplay

/-- A move of the session reads the clock when the action does. -/
theorem Feed.Action.time?_eq_some {a : Feed.Action} {b : Course.Action} {running : Bool} {now : Nat}
    (h : a.move? running = some b) (hb : b = .begin now ∨ b = .look now) : a.time? = some now := by
  rcases hb with rfl | rfl <;> cases a <;> simp_all [Feed.Action.move?, Feed.Action.time?]

structure TimedFeed where
  feed : Feed
  now : Nat

namespace TimedFeed

inductive Action
  | act (action : Feed.Action)
  /-- The pipeline is dropped, and its listeners with it. -/
  | dropPipeline
  | pass (time : Nat)

/-- A pipeline armed with a session. -/
def armed (branch : Branch) (capacity : Nat) (id : SessionId) (rows : RowSequence)
    (limits : ReplayLimits) : TimedFeed := ⟨.armed branch capacity id rows limits, 0⟩

def stage (s : TimedFeed) : SessionStage := s.feed.course.session.stage

def gate (s : TimedFeed) : Gate := s.feed.course.session.gate

/-- The time up to which a timer lets the time pass. -/
def timer? (s : TimedFeed) : Option Nat :=
  match s.stage, s.gate with
  | .waiting deadline, .shut => some deadline
  | _, _ => none

/-- The state after an action, if the action can be taken. -/
def next? (s : TimedFeed) : Action → Option TimedFeed
  | .act a =>
    if a.time?.all (· = s.now) then (s.feed.next? a).map fun feed => { s with feed } else none
  | .dropPipeline => some { s with feed := s.feed.operate Pipeline.forgetListeners }
  | .pass time =>
    if s.now ≤ time ∧ s.timer?.all (time ≤ ·) then some { s with now := time } else none

/-- What each action does. -/
inductive Stepping (s : TimedFeed) : Action → TimedFeed → Prop
  | act {a : Feed.Action} {feed : Feed} (ht : ∀ time, a.time? = some time → time = s.now)
    (h : s.feed.Stepping a feed) : Stepping s (.act a) { s with feed }
  | dropPipeline :
    Stepping s .dropPipeline { s with feed := s.feed.operate Pipeline.forgetListeners }
  | pass {time : Nat} (ht : s.now ≤ time)
    (hd : ∀ deadline, s.stage = .waiting deadline → s.gate = .shut → time ≤ deadline) :
    Stepping s (.pass time) { s with now := time }

theorem stepping {s s' : TimedFeed} {a : Action} (h : s.next? a = some s') : s.Stepping a s' := by
  cases a with
  | act a =>
    simp only [next?] at h
    split at h
    case isTrue ht =>
      obtain ⟨feed, hf, rfl⟩ := Option.map_eq_some_iff.mp h
      refine .act (fun time htime => ?_) (Feed.stepping hf)
      simpa [htime] using ht
    case isFalse => cases h
  | dropPipeline =>
    cases h
    exact .dropPipeline
  | pass time =>
    simp only [next?] at h
    split at h
    case isTrue ht =>
      cases h
      refine .pass ht.1 fun deadline hs hg => ?_
      have hd := ht.2
      simp only [timer?, hs, hg, Option.all_some, decide_eq_true_eq] at hd
      exact hd
    case isFalse => cases h

end TimedFeed

/-! A pipeline that is dropped. -/

namespace Feed

variable {f : Feed} {branch : Branch} {capacity : Nat} {session : Session}

/-- What holds of a feed throughout holds when the pipeline's listeners are dropped. -/
theorem Sound.forgetListeners (h : f.Sound branch capacity session) :
    (f.operate Pipeline.forgetListeners).Sound branch capacity session := by
  have hrests := f.rests_operate Pipeline.forgetListeners
  have hsame := hrests.same
  obtain ⟨begun, ht⟩ := h.told
  constructor
  · exact ⟨hsame.id.trans h.same.id, hsame.rows.trans h.same.rows,
      hsame.limits.trans h.same.limits⟩
  · exact ⟨begun, ht.congr hrests.stage hsame.rows hrests.deeds⟩
  · exact h.counted.congr hrests.stage rfl rfl
  · intro hno
    refine h.idle fun d hd => hno d ?_
    rw [hrests.stage, hd]
  · intro hacc
    rw [Course.finishedCalls, hrests.deeds]
    exact h.attending hacc
  · exact h.conserved.flows (.of_rest (.refl _) rfl rfl)
  · exact Pipeline.isReplaced_of_empty rfl
  · exact h.started

end Feed

/-! The gate and the end of a session. -/

/-- A session is past its gate only if that was opened, gives up only if that was abandoned, and waits
no longer than it may. -/
def Session.Settled (s : Session) : Prop :=
  match s.stage with
  | .delivering _ | .offering _ | .ended (.ok _) => s.gate = .opened
  | .ended (.error .readinessAbandoned) => s.gate = .abandoned
  | .ended (.error (.readinessTimeout waited)) => waited = s.limits.readyTimeout
  | _ => True

theorem Session.Settled.congr {s s' : Session} (h : s.Settled) (hs : s'.stage = s.stage)
    (hl : s'.limits = s.limits) (hg : s.gate ≠ .shut → s'.gate = s.gate) : s'.Settled := by
  have hkeep : ∀ gate : Gate, gate ≠ .shut → s.gate = gate → s'.gate = gate := by
    rintro _ hne rfl
    exact hg hne
  unfold Settled at h ⊢
  rw [hs, hl]
  split
  all_goals simp_all

theorem Course.Moving.settled {c c' : Course} {a : Course.Action} (h : c.Moving a c')
    (hs : c.session.Settled) : c'.session.Settled := by
  cases h with
  | openGate | abandonGate => exact hs.congr rfl rfl fun hg => if_neg hg
  | ready _ hg => exact hg
  | abandoned _ hg => exact hg
  | timedOut => exact rfl
  | begin | overflow | lose => trivial
  | offer hst | halt hst | accept hst | stopped hst | exhausted hst | again hst =>
    simp only [Session.Settled, hst] at hs
    exact hs

/-- The gate lies behind the session, or its task is lost. -/
def Session.IsPastGate (s : Session) : Prop :=
  match s.stage with
  | .delivering _ | .offering _ | .ended (.ok _) | .ended (.error .taskLost) => True
  | _ => False

theorem Course.Moving.isPastGate {c c' : Course} {a : Course.Action} (h : c.Moving a c')
    (hp : c.session.IsPastGate) : c'.session.IsPastGate := by
  cases h with
  | openGate | abandonGate => exact hp
  | begin hst | abandoned hst | timedOut hst => simp [Session.IsPastGate, hst] at hp
  | ready | offer | halt | accept | overflow | stopped | exhausted | again | lose => trivial

namespace TimedFeed

variable {s s' : TimedFeed} {a : Action}

/-- What a step means for the session: no more than news at the gate, or a move at this time. -/
theorem Stepping.course (h : s.Stepping a s') :
    s.feed.Rests s'.feed ∨ s'.now = s.now ∧
      ∃ action b, a = .act action ∧ (∀ time, action.time? = some time → time = s.now) ∧
        action.move? s.feed.pipeline.running = some b ∧
        s.feed.course.Moving b s'.feed.course := by
  cases h with
  | @act action feed ht h =>
    rcases h.course with hr | ⟨b, hb, hm⟩
    · exact Or.inl hr
    · exact Or.inr ⟨rfl, action, b, rfl, ht, hb, hm⟩
  | dropPipeline => exact Or.inl (Feed.rests_operate ..)
  | pass => exact Or.inl (.refl rfl)

theorem Stepping.now_le (h : s.Stepping a s') : s.now ≤ s'.now := by
  cases h with
  | act | dropPipeline => exact Nat.le_refl s.now
  | pass ht => exact ht

theorem Stepping.sound {branch : Branch} {capacity : Nat} {session : Session} (h : s.Stepping a s')
    (hs : s.feed.Sound branch capacity session) : s'.feed.Sound branch capacity session := by
  cases h with
  | act _ hf => exact hs.step hf
  | dropPipeline => exact hs.forgetListeners
  | pass => exact hs

/-- A gate that is open or abandoned stays so. -/
theorem Stepping.gate (h : s.Stepping a s') (hg : s.gate ≠ .shut) : s'.gate = s.gate := by
  rcases h.course with ⟨gate, clock, hc, hgate⟩ | ⟨_, _, _, _, _, _, hm⟩
  · rw [TimedFeed.gate, hc]
    exact hgate hg
  · exact hm.gate hg

theorem Stepping.ended {result : Except ReplayError ReplayOutcome} (h : s.Stepping a s')
    (he : s.stage = .ended result) : s'.stage = .ended result := by
  rcases h.course with hr | ⟨_, _, _, _, _, _, hm⟩
  · exact hr.stage.trans he
  · exact (Course.ended_step he hm).1

theorem Stepping.settled (h : s.Stepping a s') (hs : s.feed.course.session.Settled) :
    s'.feed.course.session.Settled := by
  rcases h.course with hr | ⟨_, _, _, _, _, _, hm⟩
  · exact hs.congr hr.stage hr.same.limits h.gate
  · exact hm.settled hs

theorem Stepping.isPastGate (h : s.Stepping a s') (hp : s.feed.course.session.IsPastGate) :
    s'.feed.course.session.IsPastGate := by
  rcases h.course with hr | ⟨_, _, _, _, _, _, hm⟩
  · simpa only [Session.IsPastGate, hr.stage] using hp
  · exact hm.isPastGate hp

/-- Whoever waits at a shut gate does so until its time is over, and no longer. -/
def Timely (s : TimedFeed) : Prop :=
  ∀ deadline, s.stage = .waiting deadline → s.gate = .shut → s.now ≤ deadline

theorem Stepping.shut (h : s.Stepping a s') (hg : s'.gate = .shut) : s.gate = .shut := by
  by_cases hshut : s.gate = .shut
  · exact hshut
  · rwa [h.gate hshut] at hg

theorem Stepping.timely (h : s.Stepping a s') (ht : s.Timely) : s'.Timely := by
  intro deadline hs hg
  have hshut := h.shut hg
  cases h with
  | pass _ hd => exact hd deadline hs hg
  | dropPipeline => exact ht deadline ((Feed.rests_operate ..).stage.symm.trans hs) hshut
  | @act action feed htime hf =>
    rcases hf.course with hr | ⟨b, hb, hm⟩
    · exact ht deadline (hr.stage.symm.trans hs) hshut
    · simp only [stage] at hs
      generalize feed.course = c' at hs hm
      cases hm with
      | @begin now =>
        obtain rfl := htime now (Feed.Action.time?_eq_some hb (Or.inl rfl))
        cases hs
        exact Nat.le_add_right ..
      | openGate | abandonGate => exact ht deadline hs hshut
      | _ => cases hs

theorem Stepping.patient (h : s.Stepping a s') (hp : s.feed.course.session.Patient) :
    s'.feed.course.session.Patient := by
  rcases h.course with hr | ⟨_, _, _, _, _, _, hm⟩
  · simpa only [Session.Patient, hr.stage, hr.same.limits] using hp
  · exact hm.patient hp

/-- The session has read no later time than it is. -/
theorem Stepping.clock_le (h : s.Stepping a s') (hc : s.feed.course.clock ≤ s.now) :
    s'.feed.course.clock ≤ s'.now := by
  cases h with
  | pass ht => exact Nat.le_trans hc ht
  | dropPipeline => exact hc
  | act htime hf =>
    cases hf with
    | start | stop | abort | finishInput | receive | dropOutput | enter => exact hc
    | begin hm | look hm => cases hm <;> exact Nat.le_of_eq (htime _ rfl)
    | shutOut => exact Nat.le_of_eq (htime _ rfl)
    | @offer _ _ _ offer | @review _ _ _ _ offer => cases offer <;> exact Nat.le_of_eq (htime _ rfl)
    | next hm | accept _ hm | refuse _ hm =>
      generalize s.feed.pipeline.running = running at hm
      cases hm <;> exact hc
    | lose hm =>
      cases hm
      exact hc

/-- A session that has not ended can go on, if not now then when its time to wait is over. -/
theorem can_go_on (s : TimedFeed) (hp : s.feed.course.session.Patient) (ht : s.Timely)
    (hc : s.feed.course.clock ≤ s.now) (he : s.feed.course.session.isEnded = false) :
    ∃ time a, Feed.Action.isOfSession a = true ∧
      ((s.next? (.pass time)).bind fun later => later.next? (.act a)).isSome = true := by
  obtain ⟨time, hnow, htimer, hwait⟩ : ∃ time, s.now ≤ time ∧ s.timer?.all (time ≤ ·) = true ∧
      ∀ deadline, s.stage = .waiting deadline → s.gate = .shut → deadline ≤ time := by
    by_cases hw : ∃ deadline, s.stage = .waiting deadline ∧ s.gate = .shut
    · obtain ⟨deadline, hs, hg⟩ := hw
      refine ⟨deadline, ht deadline hs hg, by simp [timer?, hs, hg], fun later hs' _ => ?_⟩
      rw [hs] at hs'
      cases hs'
      exact Nat.le_refl deadline
    · refine ⟨s.now, Nat.le_refl s.now, ?_, fun deadline hs hg => (hw ⟨deadline, hs, hg⟩).elim⟩
      unfold timer?
      split
      case h_1 hs hg => exact (hw ⟨_, hs, hg⟩).elim
      case h_2 => rfl
  obtain ⟨action, ha, htime, hnext⟩ :=
    s.feed.can_go_on_at hp he (Nat.le_trans hc hnow) hwait
  refine ⟨time, action, ha, ?_⟩
  have hall : action.time?.all (· = time) = true := by
    cases hat : action.time? with
    | none => rfl
    | some read => simp [htime read hat]
  simp [next?, hnow, htimer, hall, hnext]

/-! Steps to another stage. -/

/-- A session gets its first turn, or is lost before. -/
theorem Stepping.begins (h : s.Stepping a s') (hs : s.stage = .submitted)
    (hs' : s'.stage ≠ .submitted) :
    a = .act (.begin s.now) ∨ s'.stage = .ended (.error .taskLost) := by
  rcases h.course with hr | ⟨_, action, b, ha, htime, hb, hm⟩
  · exact (hs' (hr.stage.trans hs)).elim
  · simp only [stage] at hs hs' ⊢
    generalize s'.feed.course = c' at hs' hm ⊢
    cases hm with
    | @begin now =>
      obtain rfl := htime now (Feed.Action.time?_eq_some hb (Or.inl rfl))
      cases action <;> simp_all [Feed.Action.move?]
    | lose => exact Or.inr rfl
    | openGate | abandonGate => exact (hs' hs).elim
    | _ => simp_all

theorem Stepping.begin_stage {start : Nat} (h : s.Stepping (.act (.begin start)) s') :
    s.now = start ∧ s.stage = .submitted ∧
      s'.stage = .waiting (start + s.feed.course.session.limits.readyTimeout.nanos) := by
  cases h with
  | act ht hf =>
    cases hf with
    | begin hc =>
      cases hc with
      | begin hs => exact ⟨(ht start rfl).symm, hs, rfl⟩

/-- Nobody begins to wait again, or for another time. -/
theorem Stepping.waits {deadline : Nat} (h : s.Stepping a s') (hs : s.stage ≠ .submitted)
    (hs' : s'.stage = .waiting deadline) : s.stage = .waiting deadline := by
  rcases h.course with hr | ⟨_, action, b, ha, htime, hb, hm⟩
  · exact hr.stage.symm.trans hs'
  · simp only [stage] at hs hs' ⊢
    generalize s'.feed.course = c' at hs' hm
    cases hm with
    | begin hst => exact (hs hst).elim
    | openGate | abandonGate => exact hs'
    | _ => cases hs'

theorem Stepping.ne_submitted (h : s.Stepping a s') (hs : s.stage ≠ .submitted) :
    s'.stage ≠ .submitted := by
  rcases h.course with hr | ⟨_, action, b, ha, htime, hb, hm⟩
  · rwa [stage, hr.stage]
  · simp only [stage] at hs ⊢
    generalize s'.feed.course = c' at hm
    cases hm with
    | openGate | abandonGate => exact hs
    | _ => exact nofun

/-- A session's time is over only when it has waited so long, and the gate is shut. -/
theorem Stepping.times_out {waited : Span} (h : s.Stepping a s')
    (hs : s.stage ≠ .ended (.error (.readinessTimeout waited)))
    (hs' : s'.stage = .ended (.error (.readinessTimeout waited))) :
    s.gate = .shut ∧ ∃ deadline, s.stage = .waiting deadline ∧ deadline ≤ s.now := by
  rcases h.course with hr | ⟨_, action, b, ha, htime, hb, hm⟩
  · exact (hs (hr.stage.symm.trans hs')).elim
  · simp only [stage] at hs hs' ⊢
    generalize s'.feed.course = c' at hs' hm
    cases hm with
    | @timedOut now deadline hst hg _ hd =>
      obtain rfl := htime now (Feed.Action.time?_eq_some hb (Or.inr rfl))
      exact ⟨hg, deadline, hst, hd⟩
    | openGate | abandonGate => exact (hs hs').elim
    | _ => cases hs'

/-- The task is thrown away, or crashes because its refusals cannot be counted. -/
def Loses (s : TimedFeed) (a : Action) : Prop :=
  a = .act .lose ∨
    a = .act .refuse ∧ ∃ d, s.stage = .offering d ∧ d.attempts + 1 = attemptBound

theorem Stepping.loses (h : s.Stepping a s') (hl : s.Loses a) :
    s'.stage = .ended (.error .taskLost) := by
  rcases hl with rfl | ⟨rfl, d, hd, ha⟩
  · cases h with
    | act _ hf =>
      cases hf with
      | lose hc => cases hc; rfl
  · cases h with
    | act _ hf =>
      cases hf with
      | refuse _ hc =>
        simp only [stage] at hd
        generalize hr : s.feed.pipeline.running = running at hc
        cases hc with
        | overflow => rfl
        | stopped hst hne | exhausted hst hne | again hst hne =>
          rw [hd] at hst
          cases hst
          exact (hne ha).elim

theorem Stepping.loses_of_lost (h : s.Stepping a s') (hs : s.stage ≠ .ended (.error .taskLost))
    (hs' : s'.stage = .ended (.error .taskLost)) : s.Loses a := by
  rcases h.course with hr | ⟨_, action, b, rfl, htime, hb, hm⟩
  · exact (hs (hr.stage.symm.trans hs')).elim
  · simp only [stage, Loses] at hs hs' ⊢
    generalize s'.feed.course = c' at hs' hm
    cases hm with
    | overflow hst ha =>
      refine Or.inr ⟨?_, _, hst, ha⟩
      cases action <;> simp_all [Feed.Action.move?]
    | lose =>
      refine Or.inl ?_
      cases action <;> simp_all [Feed.Action.move?]
    | openGate | abandonGate => exact (hs hs').elim
    | _ => cases hs'

end TimedFeed

end RowReplay
