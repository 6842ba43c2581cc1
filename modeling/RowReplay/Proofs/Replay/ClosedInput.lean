import RowReplay.Proofs.Replay.Consumer

/-!
A session whose input can never take a row again. Every attempt is refused at once, so nothing more
is sent. How many attempts follow is for the limit to say, or for a stop of the pipeline; where there
is neither, the same row is offered again and again.
-/
namespace RowReplay

/-- No row has been refused before it is on offer, and a row on offer has been refused less often than
allowed. -/
def Session.Patient (s : Session) : Prop :=
  match s.stage with
  | .delivering d => d.attempts = 0
  | .offering d =>
    d.remaining ≠ [] ∧ ∀ limit, s.limits.maxPutAttempts = some limit → d.attempts < max limit 1
  | _ => True

theorem Course.Moving.patient {c c' : Course} {a : Course.Action} (h : c.Moving a c')
    (hp : c.session.Patient) : c'.session.Patient := by
  cases h with
  | openGate | abandonGate => exact hp
  | ready | accept => exact rfl
  | offer hs hr =>
    simp only [Session.Patient, hs] at hp
    simp only [Session.Patient, atStage_session, hp]
    refine ⟨?_, fun limit _ => by omega⟩
    rintro hnil
    simp [hnil] at hr
  | again hs _ hl =>
    simp only [Session.Patient, hs] at hp
    refine ⟨hp.1, fun limit hlimit => ?_⟩
    have := hl limit hlimit
    dsimp only
    omega
  | _ => trivial

namespace Feed

/-- The session tries to put a row. -/
@[simp] def Action.isAttempt : Action → Bool
  | .enter => true
  | _ => false

@[simp] def Action.isRefusal : Action → Bool
  | .refuse => true
  | _ => false

/-- The session's task goes on. -/
@[simp] def Action.isOfSession : Action → Bool
  | .begin _ | .look _ | .next | .enter | .offer _ | .review _ | .accept | .refuse => true
  | _ => false

/-- The time at which an action reads the clock. -/
def Action.time? : Action → Option Nat
  | .begin now | .look now | .offer now | .review now => some now
  | _ => none

variable {f f' : Feed} {a : Action}

theorem Stepping.patient (h : f.Stepping a f') (hp : f.course.session.Patient) :
    f'.course.session.Patient := by
  rcases h.course with hr | ⟨b, -, hm⟩
  · simpa only [Session.Patient, hr.stage, hr.same.limits] using hp
  · exact hm.patient hp

/-- The input can never take a row again: its consumer is gone, or it has been told that no more rows
come and nobody waits who came before that. -/
def Shut (f : Feed) : Prop :=
  f.handOff.isOpen = false ∨ f.isAccepting = false ∧ ∀ deadline, f.attempt ≠ .waiting deadline

/-- A row that is offered is refused. -/
theorem Shut.offer {row : Row} {handOff : HandOff Unit Row} {offer : Offer} (hs : f.Shut)
    (hn : f.isAccepting = true) (h : f.handOff.offer () row = (handOff, offer)) :
    offer = .refused := by
  have hclosed : f.handOff.isOpen = false := hs.resolve_right (by simp [hn])
  exact (HandOff.passes_offer h).2.2 hclosed

/-- An attempt that waits is refused. -/
theorem Shut.review {row : Row} {deadline : Nat} {isDue : Bool} {handOff : HandOff Unit Row}
    {offer : Offer} {next : Option Unit} (hs : f.Shut) (ha : f.attempt = .waiting deadline)
    (h : f.handOff.review () row isDue = (handOff, offer, next)) : offer = .refused := by
  have hclosed : f.handOff.isOpen = false := hs.resolve_right fun hw => hw.2 deadline ha
  exact (HandOff.passes_review h).2.2 hclosed

/-- The input stays as it is, and nothing is sent. -/
theorem Stepping.shut (h : f.Stepping a f') (hs : f.Shut) : f'.Shut ∧ f'.sent = f.sent := by
  have hshut : (f.handOff.isOpen = false → f'.handOff.isOpen = false) →
      (f.isAccepting = false → f'.isAccepting = false) →
      (∀ deadline, f'.attempt = .waiting deadline → f.attempt = .waiting deadline) → f'.Shut := by
    intro hopen hacc hwait
    rcases hs with hs | ⟨hs, hw⟩
    · exact Or.inl (hopen hs)
    · exact Or.inr ⟨hacc hs, fun deadline ha => hw deadline (hwait deadline ha)⟩
  have hstill : f.isAccepting = false → ∀ finished, (f.isAccepting && finished) = false := by
    intro hacc finished
    rw [hacc, Bool.false_and]
  cases h with
  | start | stop | abort => exact ⟨hshut id id fun _ => id, rfl⟩
  | finishInput => exact ⟨hshut id (fun _ => rfl) fun _ => id, rfl⟩
  | receive hr =>
    exact ⟨hshut (fun ho => (HandOff.passes_receive hr).isOpen.trans ho) id fun _ => id, rfl⟩
  | dropOutput => exact ⟨Or.inl rfl, rfl⟩
  | begin | look | next => exact ⟨hshut id (fun hacc => hstill hacc _) fun _ => id, rfl⟩
  | enter =>
    refine ⟨hshut id id fun deadline ha => ?_, rfl⟩
    dsimp only at ha
    split at ha <;> cases ha
  | shutOut => exact ⟨hshut id id fun _ => nofun, rfl⟩
  | offer _ _ _ hn ho =>
    obtain rfl := hs.offer hn ho
    exact ⟨hshut (fun hopen => (HandOff.passes_offer ho).1.isOpen.trans hopen) id fun _ => nofun, rfl⟩
  | review ha _ _ ho =>
    obtain rfl := hs.review ha ho
    exact ⟨hshut (fun hopen => (HandOff.passes_review ho).1.isOpen.trans hopen) id fun _ => nofun, rfl⟩
  | accept | refuse => exact ⟨hshut id (fun hacc => hstill hacc _) fun _ => nofun, rfl⟩
  | lose =>
    refine ⟨hshut (fun ho => (passes_giveUp f).isOpen.trans ho) ?_ fun deadline ha => ?_, sent_giveUp f⟩
    · intro hacc
      simp only [follow, isAccepting_giveUp]
      exact hstill hacc _
    · rw [attempt_follow, attempt_giveUp] at ha
      cases ha

/-! What is left to a session. -/

/-- The attempts left to a session, by what is left of the patience with the row on offer, and with
others. -/
def attemptsLeft (patience : Delivery → Nat) (most : Nat) (f : Feed) : Nat :=
  match f.course.session.stage, f.attempt with
  | .ended _, _ => 0
  | .offering d, .none => patience d
  | .offering _, .answered true => most
  | .offering d, _ => patience d - 1
  | _, _ => most

/-- The steps left to a session before its next attempt, or its end. -/
def stepsToAttempt (f : Feed) : Nat :=
  match f.course.session.stage, f.attempt with
  | .submitted, _ => 3
  | .waiting _, _ => 2
  | .delivering _, _ => 1
  | .offering _, .none => 0
  | .offering _, .answered false => 1
  | .offering _, _ => 2
  | .ended _, _ => 0

/-- The steps left to a session: an attempt takes three. -/
def stepsLeft (patience : Delivery → Nat) (most : Nat) (f : Feed) : Nat :=
  3 * f.attemptsLeft patience most + f.stepsToAttempt

theorem attemptsLeft_le {patience : Delivery → Nat} {most : Nat} (f : Feed)
    (hmost : ∀ d, patience d ≤ most) : f.attemptsLeft patience most ≤ most := by
  unfold attemptsLeft
  split
  case h_1 => exact Nat.zero_le most
  case h_2 => exact hmost _
  case h_4 => exact Nat.le_trans (Nat.sub_le ..) (hmost _)
  all_goals exact Nat.le_refl most

theorem stepsToAttempt_le (f : Feed) : f.stepsToAttempt ≤ 3 := by
  unfold stepsToAttempt
  split <;> omega

/-- Each attempt uses up one that was left, and each step of the session a step. -/
theorem Stepping.uses_up {patience : Delivery → Nat} {most : Nat} (h : f.Stepping a f')
    (hi : f.Idle) (hs : f.Shut)
    (hfirst : ∀ d, f.course.session.stage = .delivering d → patience d ≤ most)
    (hoffer : ∀ d, f.course.session.stage = .offering d → 0 < patience d)
    (hagain : ∀ d, f.course.session.stage = .offering d → f.pipeline.running = true →
      (∀ limit, f.course.session.limits.maxPutAttempts = some limit → d.attempts + 1 < limit) →
      patience { d with attempts := d.attempts + 1 } < patience d) :
    f'.attemptsLeft patience most + (if a.isAttempt then 1 else 0) ≤ f.attemptsLeft patience most ∧
      f'.stepsLeft patience most + (if a.isOfSession then 1 else 0) ≤
        f.stepsLeft patience most := by
  have hsame : a.isAttempt = false → a.isOfSession = false → f'.attempt = f.attempt →
      f'.course.session.stage = f.course.session.stage →
      f'.attemptsLeft patience most + (if a.isAttempt then 1 else 0) ≤
        f.attemptsLeft patience most ∧
      f'.stepsLeft patience most + (if a.isOfSession then 1 else 0) ≤
        f.stepsLeft patience most := by
    intro ha ho hattempt hstage
    rw [ha, ho]
    simp [attemptsLeft, stepsToAttempt, stepsLeft, hattempt, hstage]
  have hoffered : ∀ {row}, f.course.session.onOffer? = some row →
      ∃ d, f.course.session.stage = .offering d ∧ 0 < patience d := by
    intro row ho
    obtain ⟨d, hd, -⟩ := Session.onOffer?_eq_some ho
    exact ⟨d, hd, hoffer d hd⟩
  cases h with
  | start | stop | abort => exact hsame rfl rfl rfl (stage_operate f _)
  | finishInput | receive | dropOutput => exact hsame rfl rfl rfl rfl
  | begin hc =>
    cases hc with
    | begin hst => simp [attemptsLeft, stepsToAttempt, stepsLeft, hst, Session.begin]
  | look hc =>
    cases hc <;> simp_all [attemptsLeft, stepsToAttempt, stepsLeft]
  | next hc =>
    have hattempt : (∃ d, f.course.session.stage = .delivering d) → f.attempt = .none := by
      rintro ⟨d, hd⟩
      exact hi (by simp [hd])
    generalize f.pipeline.running = running at hc
    cases hc with
    | @offer d row hst _ =>
      have := hfirst d hst
      simp [attemptsLeft, stepsToAttempt, stepsLeft, hst, hattempt ⟨d, hst⟩]
      omega
    | halt hst =>
      simp [attemptsLeft, stepsToAttempt, stepsLeft, hst]
  | enter ha ho =>
    obtain ⟨d, hst, hpos⟩ := hoffered ho
    cases hr : f.pipeline.running <;>
      simp [attemptsLeft, stepsToAttempt, stepsLeft, hst, ha] <;>
      omega
  | shutOut ha ho =>
    obtain ⟨d, hst, hpos⟩ := hoffered ho
    simp [attemptsLeft, stepsToAttempt, stepsLeft, hst, ha]
  | offer ha ho _ hn h =>
    obtain ⟨d, hst, hpos⟩ := hoffered ho
    obtain rfl := hs.offer hn h
    simp [attemptsLeft, stepsToAttempt, stepsLeft, hst, ha, hearOffer]
  | review ha ho _ h =>
    obtain ⟨d, hst, hpos⟩ := hoffered ho
    obtain rfl := hs.review ha h
    simp [attemptsLeft, stepsToAttempt, stepsLeft, hst, ha, hearOffer]
  | accept ha hc =>
    cases hc with
    | accept hst =>
      simp [attemptsLeft, stepsToAttempt, stepsLeft, hst, ha, Session.accepted]
  | refuse ha hc =>
    generalize hr : f.pipeline.running = running at hc
    cases hc with
    | again hst _ hl =>
      have := hagain _ hst hr hl
      simp [attemptsLeft, stepsToAttempt, stepsLeft, hst, ha]
      omega
    | overflow hst | stopped hst | exhausted hst =>
      simp [attemptsLeft, stepsToAttempt, stepsLeft, hst, ha]
  | lose hc =>
    cases hc
    simp [attemptsLeft, stepsToAttempt, stepsLeft]

/-- A session that has not ended can go on at once, unless it waits for its gate. -/
theorem can_go_on_at (f : Feed) {now : Nat} (hp : f.course.session.Patient)
    (he : f.course.session.isEnded = false) (ht : f.course.clock ≤ now)
    (hw : ∀ deadline, f.course.session.stage = .waiting deadline → f.course.session.gate = .shut →
      deadline ≤ now) :
    ∃ a : Action, a.isOfSession = true ∧ (∀ time, a.time? = some time → time = now) ∧
      (f.next? a).isSome = true := by
  cases hs : f.course.session.stage with
  | submitted =>
    exact ⟨.begin now, rfl, by simp [Action.time?], by simp [next?, move, Course.next?, hs, ht]⟩
  | waiting deadline =>
    refine ⟨.look now, rfl, by simp [Action.time?], ?_⟩
    cases hg : f.course.session.gate with
    | shut =>
      have := hw deadline hs hg
      simp [next?, move, Course.next?, Session.look, hs, hg, ht, this]
    | opened | abandoned => simp [next?, move, Course.next?, Session.look, hs, hg, ht]
  | delivering d => exact ⟨.next, rfl, by simp [Action.time?], by simp [next?, move, Course.next?, hs]⟩
  | offering d =>
    simp only [Session.Patient, hs] at hp
    obtain ⟨row, rest, hr⟩ := List.exists_cons_of_ne_nil hp.1
    have ho : f.course.session.onOffer? = some row := by simp [Session.onOffer?, hs, hr]
    cases ha : f.attempt with
    | none => exact ⟨.enter, rfl, by simp [Action.time?], by simp [next?, ha, ho]⟩
    | entered =>
      refine ⟨.offer now, rfl, by simp [Action.time?], ?_⟩
      cases hn : f.isAccepting <;> simp [next?, ha, ho, hn, ht]
    | waiting deadline => exact ⟨.review now, rfl, by simp [Action.time?], by simp [next?, ha, ho, ht]⟩
    | answered taken =>
      cases taken with
      | true =>
        exact ⟨.accept, rfl, by simp [Action.time?],
          by simp [next?, ha, move, Course.next?, hs, hr]⟩
      | false =>
        exact ⟨.refuse, rfl, by simp [Action.time?], by simp [next?, ha, move, Course.next?, hs]⟩
  | ended => simp [Session.isEnded, hs] at he

/-- A session that has not ended can go on, if not now then later. -/
theorem can_go_on (f : Feed) (hp : f.course.session.Patient)
    (he : f.course.session.isEnded = false) :
    ∃ a : Action, a.isOfSession = true ∧ (f.next? a).isSome = true := by
  obtain ⟨now, ht, hw⟩ : ∃ now, f.course.clock ≤ now ∧ ∀ deadline,
      f.course.session.stage = .waiting deadline → f.course.session.gate = .shut →
        deadline ≤ now := by
    cases hs : f.course.session.stage with
    | waiting deadline =>
      refine ⟨max f.course.clock deadline, Nat.le_max_left .., ?_⟩
      rintro _ ⟨⟩ -
      exact Nat.le_max_right ..
    | _ => exact ⟨f.course.clock, Nat.le_refl _, nofun⟩
  obtain ⟨a, ha, -, hnext⟩ := f.can_go_on_at hp he ht hw
  exact ⟨a, ha, hnext⟩

/-- Without a limit, a session whose pipeline runs goes on to offer the same row: it counts its
refusals as long as it can. -/
theorem Stepping.insists {d : Delivery} (h : f.Stepping a f') (hs : f.Shut) (hlose : a ≠ .lose)
    (hst : f.course.session.stage = .offering d) (ha : f.attempt ≠ .answered true)
    (hl : f.course.session.limits.maxPutAttempts = none) (hr : f.pipeline.running = true)
    (hcount : d.attempts + (if a.isRefusal then 1 else 0) < attemptBound) :
    f'.course.session.stage =
        .offering { d with attempts := d.attempts + if a.isRefusal then 1 else 0 } ∧
      f'.attempt ≠ .answered true := by
  cases h with
  | start | stop | abort => exact ⟨(stage_operate f _).trans hst, ha⟩
  | finishInput | receive | dropOutput => exact ⟨hst, ha⟩
  | begin hc | look hc => cases hc <;> simp_all
  | next hc =>
    rw [hr] at hc
    cases hc <;> simp_all
  | enter =>
    rw [if_pos hr]
    exact ⟨hst, nofun⟩
  | shutOut => exact ⟨hst, nofun⟩
  | offer _ _ _ hn ho =>
    obtain rfl := hs.offer hn ho
    exact ⟨hst, nofun⟩
  | review hw _ _ ho =>
    obtain rfl := hs.review hw ho
    exact ⟨hst, nofun⟩
  | accept hat => exact (ha hat).elim
  | refuse _ hc =>
    rw [hr] at hc
    simp only [Action.isRefusal, if_true] at hcount ⊢
    cases hc with
    | again hst' =>
      obtain rfl : d = _ := by simpa [hst] using hst'
      exact ⟨rfl, nofun⟩
    | overflow hst' hb =>
      obtain rfl : d = _ := by simpa [hst] using hst'
      omega
    | exhausted _ _ hlimit => simp [hl] at hlimit
  | lose => exact (hlose rfl).elim

/-! Whole runs. -/

variable {branch : Branch} {capacity m n : Nat} {id : SessionId} {rows : RowSequence}
  {limits : ReplayLimits}

theorem patient (R : Run next? (armed branch capacity id rows limits)) (n : Nat) :
    (R.state n).course.session.Patient :=
  R.invariant (P := fun f => f.course.session.Patient) trivial
    (fun _ _ _ h hstep => (stepping hstep).patient h) n

theorem stays_shut (R : Run next? (armed branch capacity id rows limits))
    (hs : (R.state m).Shut) (hmn : m ≤ n) :
    (R.state n).Shut ∧ (R.state n).sent = (R.state m).sent := by
  refine R.stable (P := fun f => f.Shut ∧ f.sent = (R.state m).sent) ⟨hs, rfl⟩ hmn ?_
  rintro i a - he ⟨hi, hsent⟩
  obtain ⟨hi', hsent'⟩ := (stepping (R.step i a he)).shut hi
  exact ⟨hi', hsent'.trans hsent⟩

/-- The attempts and the steps of a session whose patience wears off are bounded. -/
theorem count_le (patience : Delivery → Nat) {most : Nat}
    (R : Run next? (armed branch capacity id rows limits)) (hs : (R.state m).Shut)
    (hmost : ∀ d, patience d ≤ most)
    (hoffer : ∀ i, m ≤ i → ∀ d, (R.state i).course.session.stage = .offering d → 0 < patience d)
    (hagain : ∀ i, m ≤ i → ∀ d, (R.state i).course.session.stage = .offering d →
      (R.state i).pipeline.running = true →
      (∀ limit, (R.state i).course.session.limits.maxPutAttempts = some limit →
        d.attempts + 1 < limit) →
      patience { d with attempts := d.attempts + 1 } < patience d) (hmn : m ≤ n) :
    R.count Action.isAttempt m n ≤ most ∧ R.count Action.isOfSession m n ≤ 3 * most + 3 := by
  have huse := fun i a (hmi : m ≤ i) he =>
    (stepping (R.step i a he)).uses_up (sound R i).idle (stays_shut R hs hmi).1 (fun d _ => hmost d)
      (hoffer i hmi) (hagain i hmi)
  have hattempts := R.count_le_of_variant hmn fun i a hmi he => (huse i a hmi he).1
  have hsteps := R.count_le_of_variant hmn fun i a hmi he => (huse i a hmi he).2
  have hleft := (R.state m).attemptsLeft_le hmost
  have hto := (R.state m).stepsToAttempt_le
  unfold stepsLeft at hsteps
  omega

/-- The refusals of the row on offer are counted as long as the pipeline runs and there is no limit. -/
theorem insists {d : Delivery} (R : Run next? (armed branch capacity id rows limits))
    (hs : (R.state m).Shut) (hl : limits.maxPutAttempts = none)
    (hst : (R.state m).course.session.stage = .offering d)
    (ha : (R.state m).attempt ≠ .answered true) (hmn : m ≤ n)
    (hr : ∀ i, m ≤ i → i < n → (R.state i).pipeline.running = true ∧ R.event i ≠ some .lose)
    (hcount : d.attempts + R.count Action.isRefusal m n < attemptBound) :
    (R.state n).course.session.stage =
        .offering { d with attempts := d.attempts + R.count Action.isRefusal m n } ∧
      (R.state n).attempt ≠ .answered true := by
  induction hmn with
  | refl =>
    rw [R.count_self]
    exact ⟨hst, ha⟩
  | @step n hmn ih =>
    rw [Nat.succ_eq_add_one, R.count_succ _ hmn] at hcount ⊢
    obtain ⟨ihst, iha⟩ := ih (fun i hi hin => hr i hi (by omega)) (by omega)
    obtain ⟨hrun, hlose⟩ := hr n hmn (Nat.lt_succ_self n)
    cases he : R.event n with
    | none =>
      rw [R.pad n he]
      exact ⟨ihst, iha⟩
    | some a =>
      have hlimits : (R.state n).course.session.limits.maxPutAttempts = none := by
        rw [(sound R n).same.limits]
        exact hl
      simp only [he, Option.any_some, ← Nat.add_assoc] at hcount ⊢
      refine (stepping (R.step n a he)).insists (stays_shut R hs hmn).1 ?_ ihst iha hlimits hrun ?_
      · rintro rfl
        exact hlose he
      · exact hcount

/-- Once the input can never take a row again, nothing more is sent, and the count so far is what the
session reports. As long as it has not ended it can go on. With a limit it makes no more attempts than
that, and ends after a bounded number of steps; if the pipeline does not run, it makes one at most.
Without a limit, as long as the pipeline runs and the task is not lost, it does not end: it offers
the same row again after every refusal that can be counted. -/
theorem refused_for_good (R : Run next? (armed branch capacity id rows limits))
    (hs : (R.state m).Shut) :
    (∀ n, m ≤ n → (R.state n).sent = (R.state m).sent ∧
      ∀ outcome, (R.state n).course.session.stage = .ended (.ok outcome) →
        outcome.delivered = (R.state m).sent.length) ∧
    (∀ n, (R.state n).course.session.isEnded = false →
      ∃ a : Action, a.isOfSession = true ∧ ((R.state n).next? a).isSome = true) ∧
    (∀ limit, limits.maxPutAttempts = some limit → ∀ n, m ≤ n →
      R.count Action.isAttempt m n ≤ max limit 1 ∧
        R.count Action.isOfSession m n ≤ 3 * max limit 1 + 3) ∧
    ((∀ i, m ≤ i → (R.state i).pipeline.running = false) → ∀ n, m ≤ n →
      R.count Action.isAttempt m n ≤ 1 ∧ R.count Action.isOfSession m n ≤ 6) ∧
    (limits.maxPutAttempts = none → ∀ d, (R.state m).course.session.stage = .offering d →
      (R.state m).attempt ≠ .answered true → ∀ n, m ≤ n →
      (∀ i, m ≤ i → i < n → (R.state i).pipeline.running = true ∧ R.event i ≠ some .lose) →
      d.attempts + R.count Action.isRefusal m n < attemptBound →
      (R.state n).course.session.stage =
        .offering { d with attempts := d.attempts + R.count Action.isRefusal m n }) := by
  refine ⟨?_, fun n => (R.state n).can_go_on (patient R n), ?_, ?_, ?_⟩
  · intro n hmn
    have hsent := (stays_shut R hs hmn).2
    refine ⟨hsent, fun outcome hend => ?_⟩
    have hcount := counted R n
    simp only [Counted, hend] at hcount
    rw [← hcount, hsent]
  · intro limit hlimit n hmn
    have hlimits : ∀ i, (R.state i).course.session.limits.maxPutAttempts = some limit := by
      intro i
      rw [(sound R i).same.limits]
      exact hlimit
    refine count_le (fun d => max limit 1 - d.attempts) R hs
      (fun d => Nat.sub_le ..) ?_ ?_ hmn
    · intro i _ d hd
      have hp := patient R i
      simp only [Session.Patient, hd] at hp
      have := hp.2 limit (hlimits i)
      omega
    · intro i _ d _ _ hmore
      have := hmore limit (hlimits i)
      dsimp only
      omega
  · intro hstop n hmn
    refine count_le (fun _ => 1) R hs (fun _ => Nat.le_refl 1)
      (fun _ _ _ _ => Nat.one_pos) ?_ hmn
    intro i hmi d _ hrun
    rw [hstop i hmi] at hrun
    cases hrun
  · intro hl d hst ha n hmn hr hcount
    exact (insists R hs hl hst ha hmn hr hcount).1

/-- The consumer goes while the second row waits for room, and the row is refused twice. -/
def consumerGone :
    Run next? (armed (.fresh "service" ["scan"] []) 1 (.numbered 0) (countRows 3)
      ⟨⟨5⟩, ⟨5⟩, some 2⟩) :=
  .ofActions _ _
    [.start, .begin 0, .look 0, .next, .enter, .offer 0, .accept, .next, .enter, .offer 0,
      .dropOutput, .review 1, .refuse, .enter, .offer 1, .refuse] (by decide)

theorem refused_for_good_sample :
    (consumerGone.state 11).Shut ∧
      (consumerGone.state 16).course.session.stage = .ended (.ok ⟨.numbered 0, 1, 3⟩) ∧
      (1 : Nat) = (consumerGone.state 11).sent.length ∧
      consumerGone.count Action.isAttempt 11 16 ≤ 2 := by
  have hs : (consumerGone.state 11).Shut := Or.inl rfl
  have hall := refused_for_good consumerGone hs
  exact ⟨hs, rfl, (hall.1 16 (by decide)).2 _ rfl, (hall.2.2.1 2 rfl 16 (by decide)).1⟩

/-- The consumer has gone before the pipeline starts, and it goes on to run. -/
def consumerNeverThere :
    Run next? (armed (.fresh "service" ["scan"] []) 1 (.numbered 0) (countRows 3)
      ⟨.ofSeconds 30, .ofMillis 10000, some 3⟩) :=
  .ofActions _ _
    [.dropOutput, .start, .begin 0, .look 0, .next, .enter, .offer 0, .refuse, .enter, .offer 0,
      .refuse, .enter, .offer 0, .refuse] (by decide)

/-- A session can make three attempts at an input that never takes a row again. -/
theorem attempts_after_consumer_gone :
    ¬ ∀ (R : Run next? (armed (.fresh "service" ["scan"] []) 1 (.numbered 0) (countRows 3)
        ⟨.ofSeconds 30, .ofMillis 10000, some 3⟩)) (m n : Nat),
      (R.state m).Shut → m ≤ n → R.count Action.isAttempt m n ≤ 1 := by
  intro h
  have hattempts := h consumerNeverThere 1 14 (Or.inl rfl) (by decide)
  exact absurd hattempts (by decide)

end Feed

end RowReplay
