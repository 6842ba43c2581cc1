import RowReplay.Proofs.Replay.Closing
import RowReplay.Proofs.Replay.Stopping

/-!
What a step of a feed means for its session: a move of the session's course, or no more than news at
the gate and a later reading of the clock.
-/
namespace RowReplay

theorem Session.hear_eq (s : Session) (effect : PipelineEffect) :
    ∃ gate, s.hear effect = { s with gate } ∧ (s.gate ≠ .shut → gate = s.gate) := by
  have hopen : ∃ gate, s.openGate = { s with gate } ∧ (s.gate ≠ .shut → gate = s.gate) :=
    ⟨_, rfl, fun hg => if_neg hg⟩
  have habandon : ∃ gate, s.abandonGate = { s with gate } ∧ (s.gate ≠ .shut → gate = s.gate) :=
    ⟨_, rfl, fun hg => if_neg hg⟩
  have hsame : ∃ gate, s = { s with gate } ∧ (s.gate ≠ .shut → gate = s.gate) :=
    ⟨s.gate, rfl, fun _ => rfl⟩
  cases effect with
  | gateOpened id =>
    simp only [hear]
    split
    · exact hopen
    · exact hsame
  | gateAbandoned id =>
    simp only [hear]
    split
    · exact habandon
    · exact hsame
  | _ => exact hsame

/-- Whatever a session hears, it only learns of its gate, and that once. -/
theorem Session.foldl_hear_eq (s : Session) (effects : List PipelineEffect) :
    ∃ gate, effects.foldl hear s = { s with gate } ∧ (s.gate ≠ .shut → gate = s.gate) := by
  induction effects generalizing s with
  | nil => exact ⟨s.gate, rfl, fun _ => rfl⟩
  | cons effect effects ih =>
    obtain ⟨gate, hs, hg⟩ := s.hear_eq effect
    obtain ⟨gate', hs', hg'⟩ := ih (s.hear effect)
    rw [hs] at hs' hg'
    refine ⟨gate', by rw [List.foldl_cons, hs, hs'], fun hgate => ?_⟩
    have := hg hgate
    subst gate
    exact hg' hgate

/-- What no step of a session changes. -/
structure Session.Same (s s' : Session) : Prop where
  id : s'.id = s.id
  rows : s'.rows = s.rows
  limits : s'.limits = s.limits

theorem Course.Moving.same {c c' : Course} {a : Course.Action} (h : c.Moving a c') :
    c.session.Same c'.session := by
  cases h <;> exact ⟨rfl, rfl, rfl⟩

theorem Course.Moving.gate {c c' : Course} {a : Course.Action} (h : c.Moving a c')
    (hg : c.session.gate ≠ .shut) : c'.session.gate = c.session.gate := by
  cases h with
  | openGate | abandonGate => exact if_neg hg
  | _ => rfl

/-- A report is about the session's own rows. -/
def Session.Reporting (s : Session) : Prop :=
  ∀ outcome, s.stage = .ended (.ok outcome) →
    outcome.session = s.id ∧ outcome.total = s.rows.length

theorem Course.Moving.reporting {c c' : Course} {a : Course.Action} (h : c.Moving a c')
    (hr : c.session.Reporting) : c'.session.Reporting := by
  intro outcome he
  cases h with
  | openGate | abandonGate => exact hr outcome he
  | halt | stopped | exhausted =>
    cases he
    exact ⟨rfl, rfl⟩
  | _ => cases he

theorem Course.Closed.finishedCalls {c : Course} {result : Except ReplayError ReplayOutcome}
    (h : c.Closed result) : c.finishedCalls = 1 := by
  obtain ⟨k, -, -, hd⟩ := h
  rw [Course.finishedCalls, hd, List.countP_append, Course.handed, Course.countP_isFinish_handed]
  rfl

namespace Feed

variable {f f' : Feed} {a : Action}

/-- The move of the session that an action is. -/
def Action.move? (a : Action) (running : Bool) : Option Course.Action :=
  match a with
  | .begin now => some (.begin now)
  | .look now => some (.look now)
  | .next => some (.next running)
  | .accept => some .accept
  | .refuse => some (.refuse running)
  | .lose => some .lose
  | _ => none

/-- The session stays where it is; it may learn of its gate, and the clock may go on. -/
def Rests (f f' : Feed) : Prop :=
  ∃ gate clock, f'.course = { f.course with session.gate := gate, clock } ∧
    (f.course.session.gate ≠ .shut → gate = f.course.session.gate)

theorem Rests.refl (h : f'.course = f.course) : f.Rests f' := ⟨_, _, h, fun _ => rfl⟩

theorem rests_operate (f : Feed) (operation : Pipeline → Pipeline × List PipelineEffect) :
    f.Rests (f.operate operation) := by
  obtain ⟨gate, hs, hg⟩ := f.course.session.foldl_hear_eq (operation f.pipeline).2
  exact ⟨gate, f.course.clock, congrArg (fun session => { f.course with session }) hs, hg⟩

theorem rests_hearOffer (f : Feed) (now : Nat) (row : Row) (deadline : Nat)
    (handOff : HandOff Unit Row) (offer : Offer) :
    f.Rests ({ f with course.clock := now }.hearOffer row deadline handOff offer) := by
  cases offer <;> exact ⟨_, now, rfl, fun _ => rfl⟩

theorem Stepping.course (h : f.Stepping a f') :
    f.Rests f' ∨ ∃ b, a.move? f.pipeline.running = some b ∧ f.course.Moving b f'.course := by
  cases h with
  | start | stop | abort => exact Or.inl (rests_operate f _)
  | finishInput | receive | dropOutput | enter => exact Or.inl (.refl rfl)
  | shutOut => exact Or.inl ⟨_, _, rfl, fun _ => rfl⟩
  | offer | review => exact Or.inl (rests_hearOffer ..)
  | begin hc | look hc | next hc | accept _ hc | refuse _ hc | lose hc =>
    exact Or.inr ⟨_, rfl, hc⟩

theorem Rests.stage (h : f.Rests f') : f'.course.session.stage = f.course.session.stage := by
  obtain ⟨gate, clock, hc, -⟩ := h
  rw [hc]

theorem Rests.deeds (h : f.Rests f') : f'.course.deeds = f.course.deeds := by
  obtain ⟨gate, clock, hc, -⟩ := h
  rw [hc]

theorem Rests.same (h : f.Rests f') : f.course.session.Same f'.course.session := by
  obtain ⟨gate, clock, hc, -⟩ := h
  rw [hc]
  exact ⟨rfl, rfl, rfl⟩

theorem Stepping.same (h : f.Stepping a f') : f.course.session.Same f'.course.session := by
  rcases h.course with hr | ⟨b, -, hm⟩
  · exact hr.same
  · exact hm.same

theorem Stepping.told (h : f.Stepping a f') (ht : ∃ begun, f.course.Told begun) :
    ∃ begun, f'.course.Told begun := by
  obtain ⟨begun, ht⟩ := ht
  rcases h.course with hr | ⟨b, -, hm⟩
  · exact ⟨begun, ht.congr hr.stage hr.same.rows hr.deeds⟩
  · exact ⟨_, ht.step hm⟩

theorem Stepping.ended {result : Except ReplayError ReplayOutcome} (h : f.Stepping a f')
    (he : f.course.session.stage = .ended result) :
    f'.course.session.stage = .ended result ∧ f'.course.deeds = f.course.deeds := by
  rcases h.course with hr | ⟨b, -, hm⟩
  · exact ⟨hr.stage.trans he, hr.deeds⟩
  · exact Course.ended_step he hm

theorem Stepping.reporting (h : f.Stepping a f') (hr : f.course.session.Reporting) :
    f'.course.session.Reporting := by
  rcases h.course with hrest | ⟨b, -, hm⟩
  · intro outcome he
    rw [hrest.stage] at he
    rw [hrest.same.id, hrest.same.rows]
    exact hr outcome he
  · exact hm.reporting hr

/-- The input takes rows only as long as the session has not told it that no more come. -/
def Attending (f : Feed) : Prop := f.isAccepting = true → f.course.finishedCalls = 0

theorem Stepping.attending (h : f.Stepping a f') (ha : f.Attending) : f'.Attending := by
  have hfollow : ∀ (g : Feed) (course : Course), (g.follow course).Attending := by
    intro g course hacc
    simp only [follow, Bool.and_eq_true, beq_iff_eq] at hacc
    exact hacc.2
  have hrests : f.Rests f' → (f'.isAccepting = true → f.isAccepting = true) → f'.Attending := by
    intro hr hmono hacc
    rw [Course.finishedCalls, hr.deeds]
    exact ha (hmono hacc)
  cases h with
  | start | stop | abort => exact hrests (rests_operate f _) id
  | finishInput =>
    intro hacc
    cases hacc
  | receive | dropOutput | enter => exact hrests (.refl rfl) id
  | shutOut => exact hrests ⟨_, _, rfl, fun _ => rfl⟩ id
  | @offer _ _ _ offer | @review _ _ _ _ offer =>
    refine hrests (rests_hearOffer ..) ?_
    cases offer <;> exact id
  | begin | look | next | accept | refuse | lose => exact hfollow _ _

/-- Only a session that offers a row makes attempts. -/
def Idle (f : Feed) : Prop := (∀ d, f.course.session.stage ≠ .offering d) → f.attempt = .none

theorem Stepping.idle (h : f.Stepping a f') (hi : f.Idle) : f'.Idle := by
  intro hno
  have hoffer : ∀ {row}, f.course.session.onOffer? = some row →
      f'.course.session.stage ≠ f.course.session.stage := by
    intro row ho hs
    obtain ⟨d, hd, -⟩ := Session.onOffer?_eq_some ho
    exact hno d (hs.trans hd)
  cases h with
  | start | stop | abort =>
    refine hi fun d hd => hno d ?_
    rw [stage_operate, hd]
  | finishInput | receive | dropOutput => exact hi hno
  | enter _ ho | shutOut _ ho => exact (hoffer ho rfl).elim
  | offer _ ho | review _ ho => exact (hoffer ho (rests_hearOffer ..).stage).elim
  | begin hc | look hc | next hc =>
    refine hi fun d hd => ?_
    generalize f.pipeline.running = running at hc
    cases hc <;> simp_all
  | accept | refuse => rfl
  | lose => exact attempt_giveUp f

/-! Whole runs. -/

variable {branch : Branch} {capacity n m : Nat} {id : SessionId} {rows : RowSequence}
  {limits : ReplayLimits}

theorem reporting (R : Run next? (armed branch capacity id rows limits)) (n : Nat) :
    (R.state n).course.session.Reporting :=
  R.invariant (P := fun f => f.course.session.Reporting) (fun _ he => nomatch he)
    (fun _ _ _ h hstep => (stepping hstep).reporting h) n

end Feed

end RowReplay
