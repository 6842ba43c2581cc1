import RowReplay.Proofs.Replay.Feed

/-!
Stopping a pipeline that a session feeds. No attempt to put a row begins after the stop, so at most
the one that is under way then still hands over its row.
-/
namespace RowReplay

theorem Session.stage_hear (s : Session) (effect : PipelineEffect) :
    (s.hear effect).stage = s.stage := by
  cases effect <;> simp only [hear] <;> split <;> rfl

theorem Session.stage_foldl_hear (s : Session) (effects : List PipelineEffect) :
    (effects.foldl hear s).stage = s.stage := by
  induction effects generalizing s with
  | nil => rfl
  | cons effect effects ih => exact (ih _).trans (s.stage_hear effect)

theorem Session.onOffer?_eq_some {s : Session} {row : Row} (h : s.onOffer? = some row) :
    ∃ d, s.stage = .offering d ∧ d.remaining.head? = some row := by
  unfold onOffer? at h
  split at h
  case h_1 d hs => exact ⟨d, hs, h⟩
  case h_2 => cases h

/-- The attempt has found the pipeline running, and has no answer. -/
def Attempt.isUnderWay : Attempt → Bool
  | .entered => true
  | .waiting _ => true
  | _ => false

/-- The rows that the attempt has handed over, of which the session has not heard. -/
def Attempt.taken : Attempt → Nat
  | .answered true => 1
  | _ => 0

namespace Feed

variable {f f' : Feed} {a : Action}

/-! What one step does. -/

theorem stage_operate (f : Feed) (operation : Pipeline → Pipeline × List PipelineEffect) :
    (f.operate operation).course.session.stage = f.course.session.stage :=
  Session.stage_foldl_hear ..

/-- Only a start sets a pipeline running. -/
theorem Stepping.stopped (h : f.Stepping a f') (ha : a ≠ .start)
    (hr : f.pipeline.running = false) : f'.pipeline.running = false := by
  cases h with
  | start => exact (ha rfl).elim
  | stop | abort => rfl
  | offer | review | lose => simpa using hr
  | _ => exact hr

/-- An attempt that is under way sends the row on offer or not; nobody else sends one. -/
theorem Stepping.sent (h : f.Stepping a f') :
    f'.sent = f.sent ∨
      f.attempt.isUnderWay = true ∧ f'.attempt.isUnderWay = false ∧
        ∃ row, f.course.session.onOffer? = some row ∧ f'.sent = f.sent ++ [row] := by
  cases h with
  | @offer _ row _ offer ha ho =>
    cases offer with
    | accepted => exact Or.inr ⟨by simp [ha, Attempt.isUnderWay], rfl, row, ho, rfl⟩
    | refused | waiting => exact Or.inl rfl
  | @review _ _ row _ offer _ ha ho =>
    cases offer with
    | accepted => exact Or.inr ⟨by simp [ha, Attempt.isUnderWay], rfl, row, ho, rfl⟩
    | refused | waiting => exact Or.inl rfl
  | lose => exact Or.inl (sent_giveUp f)
  | _ => exact Or.inl rfl

/-- No attempt begins unless the pipeline runs. -/
theorem Stepping.underWay (h : f.Stepping a f') (hr : f.pipeline.running = false)
    (hu : f.attempt.isUnderWay = false) : f'.attempt.isUnderWay = false := by
  cases h with
  | enter => simp [hr, Attempt.isUnderWay]
  | offer ha | review ha => simp [ha, Attempt.isUnderWay] at hu
  | shutOut | accept | refuse => rfl
  | lose => exact congrArg Attempt.isUnderWay (attempt_giveUp f)
  | _ => exact hu

/-- The session has counted the rows that went into the hand-off, except one that it has not heard
of. -/
def Counted (f : Feed) : Prop :=
  match f.course.session.stage with
  | .submitted => f.attempt = .none ∧ f.sent = []
  | .waiting _ => f.attempt = .none ∧ f.sent = []
  | .delivering d => f.attempt = .none ∧ f.sent.length = d.delivered
  | .offering d => f.sent.length = d.delivered + f.attempt.taken
  | .ended (.ok outcome) => f.sent.length = outcome.delivered
  | .ended (.error _) => True

theorem Counted.congr (h : f.Counted) (hs : f'.course.session.stage = f.course.session.stage)
    (ha : f'.attempt = f.attempt) (hsent : f'.sent = f.sent) : f'.Counted := by
  simpa only [Counted, hs, ha, hsent] using h

theorem Counted.hearOffer {row : Row} {d : Delivery} (h : f.Counted)
    (hs : f.course.session.stage = .offering d) (ha : f.attempt.taken = 0) (deadline : Nat)
    (handOff : HandOff Unit Row) (offer : Offer) :
    (f.hearOffer row deadline handOff offer).Counted := by
  simp only [Counted, hs, ha] at h
  cases offer with
  | accepted => simp [Counted, Feed.hearOffer, hs, h, Attempt.taken]
  | refused | waiting => simp [Counted, Feed.hearOffer, hs, h, Attempt.taken]

theorem Counted.step (h : f.Counted) (hstep : f.Stepping a f') : f'.Counted := by
  cases hstep with
  | start | stop | abort => exact h.congr (stage_operate f _) rfl rfl
  | finishInput | receive | dropOutput => exact h
  | begin hc =>
    cases hc with
    | begin hs =>
      simp only [Counted, hs] at h
      exact h
  | look hc =>
    cases hc with
    | ready hs =>
      simp only [Counted, hs] at h
      exact ⟨h.1, by simp [h.2, Delivery.start]⟩
    | abandoned | timedOut => trivial
  | next hc =>
    generalize f.pipeline.running = running at hc
    cases hc with
    | offer hs =>
      simp only [Counted, hs] at h
      simp [Counted, h, Attempt.taken]
    | halt hs =>
      simp only [Counted, hs] at h
      exact h.2
  | enter ha ho =>
    obtain ⟨d, hs, -⟩ := Session.onOffer?_eq_some ho
    simp only [Counted, hs, ha] at h
    cases hr : f.pipeline.running <;> simp [Counted, hs, h, Attempt.taken]
  | shutOut ha ho =>
    obtain ⟨d, hs, -⟩ := Session.onOffer?_eq_some ho
    simp only [Counted, hs, ha] at h
    simpa [Counted, hs, Attempt.taken] using h
  | offer ha ho | review ha ho =>
    obtain ⟨d, hs, -⟩ := Session.onOffer?_eq_some ho
    refine Counted.hearOffer (d := d) ?_ ?_ ?_ _ _ _
    · exact h
    · exact hs
    · simp [ha, Attempt.taken]
  | accept ha hc =>
    cases hc with
    | accept hs =>
      simp only [Counted, hs, ha] at h
      exact ⟨rfl, h⟩
  | refuse ha hc =>
    generalize f.pipeline.running = running at hc
    cases hc with
    | overflow => trivial
    | stopped hs | exhausted hs | again hs =>
      simp only [Counted, hs, ha] at h
      exact h
  | lose hc =>
    cases hc with
    | lose => trivial

/-! Whole runs. -/

variable {branch : Branch} {capacity m n : Nat} {id : SessionId} {rows : RowSequence}
  {limits : ReplayLimits}

theorem counted (R : Run next? (armed branch capacity id rows limits)) (n : Nat) :
    (R.state n).Counted :=
  R.invariant (P := Counted) ⟨rfl, rfl⟩ (fun _ _ _ h hstep => h.step (stepping hstep)) n

theorem stays_stopped (R : Run next? (armed branch capacity id rows limits))
    (hstop : (R.state m).pipeline.running = false) (hstart : ∀ i, m ≤ i → R.event i ≠ some .start)
    (hmn : m ≤ n) : (R.state n).pipeline.running = false := by
  refine R.stable (P := fun f => f.pipeline.running = false) hstop hmn ?_
  intro i a hmi he hr
  refine (stepping (R.step i a he)).stopped ?_ hr
  rintro rfl
  exact hstart i hmi he

/-- After a stop nothing is sent, except one row by an attempt that was under way. -/
theorem sent_since_stop (R : Run next? (armed branch capacity id rows limits))
    (hstop : (R.state m).pipeline.running = false) (hstart : ∀ i, m ≤ i → R.event i ≠ some .start)
    (hmn : m ≤ n) :
    (R.state n).sent = (R.state m).sent ∧
        ((R.state n).attempt.isUnderWay = true → (R.state m).attempt.isUnderWay = true) ∨
      (R.state n).attempt.isUnderWay = false ∧ (R.state m).attempt.isUnderWay = true ∧
        ∃ row, (R.state n).sent = (R.state m).sent ++ [row] := by
  induction hmn with
  | refl => exact Or.inl ⟨rfl, fun h => h⟩
  | @step n hmn ih =>
    cases he : R.event n with
    | none => rwa [R.pad n he]
    | some a =>
      have hstep := stepping (R.step n a he)
      have hr := stays_stopped R hstop hstart hmn
      rcases ih with ⟨hsame, hu⟩ | ⟨hu, hm, row, hrow⟩
      · rcases hstep.sent with hs | ⟨hn, hn', row, -, hs⟩
        · refine Or.inl ⟨hs.trans hsame, fun hn' => hu ?_⟩
          rw [← Bool.not_eq_false]
          intro hn
          simp [hstep.underWay hr hn] at hn'
        · exact Or.inr ⟨hn', hu hn, row, by rw [hs, hsame]⟩
      · rcases hstep.sent with hs | ⟨hn, -, -⟩
        · exact Or.inr ⟨hstep.underWay hr hu, hm, row, hs.trans hrow⟩
        · simp [hu] at hn

/-- For any rows, capacity, limits, and whatever the pipeline's owner and consumer do: once the
pipeline does not run and is not started again, an attempt to put a row that is under way may still
send its row, and nothing else is sent. So if no attempt is under way, the rows sent before are all
the rows that the session reports. -/
theorem no_delivery_after_stop (R : Run next? (armed branch capacity id rows limits))
    (hstop : (R.state m).pipeline.running = false)
    (hstart : ∀ i, m ≤ i → R.event i ≠ some .start) :
    ((R.state m).attempt.isUnderWay = false → ∀ n, m ≤ n →
      (R.state n).sent = (R.state m).sent ∧
        ∀ outcome, (R.state n).course.session.stage = .ended (.ok outcome) →
          outcome.delivered = (R.state m).sent.length) ∧
    ∀ n, m ≤ n → ∃ late, late.length ≤ 1 ∧ (R.state n).sent = (R.state m).sent ++ late ∧
      ∀ outcome, (R.state n).course.session.stage = .ended (.ok outcome) →
        outcome.delivered = (R.state m).sent.length + late.length := by
  have hreport : ∀ n outcome, (R.state n).course.session.stage = .ended (.ok outcome) →
      outcome.delivered = (R.state n).sent.length := by
    intro n outcome hend
    have hc := counted R n
    simp only [Counted, hend] at hc
    exact hc.symm
  constructor
  · intro hidle n hmn
    rcases sent_since_stop R hstop hstart hmn with ⟨hs, -⟩ | ⟨-, hm, -⟩
    · refine ⟨hs, fun outcome hend => ?_⟩
      rw [hreport n outcome hend, hs]
    · simp [hidle] at hm
  · intro n hmn
    rcases sent_since_stop R hstop hstart hmn with ⟨hs, -⟩ | ⟨-, -, row, hs⟩
    · refine ⟨[], Nat.zero_le 1, by rw [hs, List.append_nil], fun outcome hend => ?_⟩
      rw [hreport n outcome hend, hs]
      rfl
    · refine ⟨[row], Nat.le_refl 1, hs, fun outcome hend => ?_⟩
      rw [hreport n outcome hend, hs, List.length_append]

/-- The pipeline is stopped between two rows. -/
def stoppedBetweenRows :
    Run next? (armed (.fresh "service" ["scan"] []) 1 (.numbered 0) (countRows 3)
      ⟨⟨5⟩, ⟨5⟩, none⟩) :=
  .ofActions _ _
    [.start, .begin 0, .look 0, .next, .enter, .offer 0, .accept, .stop, .receive, .next] (by decide)

theorem no_delivery_after_stop_sample :
    (stoppedBetweenRows.state 8).pipeline.running = false ∧
      (∀ i, 8 ≤ i → stoppedBetweenRows.event i ≠ some .start) ∧
      (stoppedBetweenRows.state 10).course.session.stage =
        .ended (.ok ⟨.numbered 0, 1, 3⟩) ∧
      (stoppedBetweenRows.state 10).sent = (stoppedBetweenRows.state 8).sent ∧
      1 = (stoppedBetweenRows.state 8).sent.length := by
  have hstart : ∀ i, 8 ≤ i → stoppedBetweenRows.event i ≠ some .start := by
    intro i hi he
    simpa using Run.mem_drop_of_event hi he
  have hall := (no_delivery_after_stop stoppedBetweenRows rfl hstart).1 rfl 10 (by decide)
  exact ⟨rfl, hstart, rfl, hall.1, hall.2 _ rfl⟩

/-- The pipeline is stopped while an attempt waits for room, and then its consumer takes a row. -/
def stoppedWhileWaiting :
    Run next? (armed (.fresh "service" ["scan"] []) 1 (.numbered 0) (countRows 3)
      ⟨⟨5⟩, ⟨5⟩, none⟩) :=
  .ofActions _ _
    [.start, .begin 0, .look 0, .next, .enter, .offer 0, .accept, .next, .enter, .offer 0, .stop,
      .receive, .review 0, .accept, .next] (by decide)

/-- A row is sent after the stop, and the session reports it. -/
theorem delivery_after_stop :
    ¬ ∀ (R : Run next? (armed (.fresh "service" ["scan"] []) 1 (.numbered 0) (countRows 3)
        ⟨⟨5⟩, ⟨5⟩, none⟩)) (m n : Nat),
      (R.state m).pipeline.running = false → (∀ i, m ≤ i → R.event i ≠ some .start) → m ≤ n →
        (R.state n).sent = (R.state m).sent ∧
          ∀ outcome, (R.state n).course.session.stage = .ended (.ok outcome) →
            outcome.delivered = (R.state m).sent.length := by
  intro h
  have hstart : ∀ i, 11 ≤ i → stoppedWhileWaiting.event i ≠ some .start := by
    intro i hi he
    simpa using Run.mem_drop_of_event hi he
  have hdelivered := (h stoppedWhileWaiting 11 15 rfl hstart (by decide)).2 ⟨.numbered 0, 2, 3⟩ rfl
  exact absurd hdelivered (by decide)

end Feed

end RowReplay
