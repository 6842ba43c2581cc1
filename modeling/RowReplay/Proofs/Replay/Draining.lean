import RowReplay.Proofs.Replay.Readiness

/-!
A consumer that reads on. As long as the pipeline runs, its consumer goes on to take rows, and the
session's task has its turns, every row of the sequence comes out of the pipeline, and the session
reports them all.
-/
namespace RowReplay

theorem Course.Told.finishedCalls_going {c : Course} {begun : Bool} (h : c.Told begun)
    (hgoing : c.session.isEnded = false) : c.finishedCalls = 0 := by
  obtain ⟨k, hk⟩ := h.going hgoing
  rw [finishedCalls, hk]
  exact countP_isFinish_handed _

theorem Session.exists_result {s : Session} (h : s.isEnded = true) :
    ∃ result, s.stage = .ended result := by
  unfold isEnded at h
  split at h
  case h_1 result hs => exact ⟨result, hs⟩
  case h_2 => cases h

namespace Feed

variable {f f' : Feed} {a : Action}

/-- The consumer is there, the input takes rows until the session has ended, and nobody but the
session's attempt asks for room. -/
structure Orderly (f : Feed) : Prop where
  isOpen : f.handOff.isOpen = true
  isAccepting : f.course.session.isEnded = false → f.isAccepting = true
  claims : match f.attempt with
    | .waiting _ => f.handOff.Claimed ()
    | _ => f.handOff.Unclaimed

/-- The consumer goes, or the input is told by others that no more rows come. -/
def Action.cutsOff : Action → Bool
  | .finishInput | .dropOutput => true
  | _ => false

@[simp] def Action.isReceive : Action → Bool
  | .receive => true
  | _ => false

theorem orderly_armed (branch : Branch) (capacity : Nat) (id : SessionId) (rows : RowSequence)
    (limits : ReplayLimits) : (armed branch capacity id rows limits).Orderly where
  isOpen := rfl
  isAccepting _ := rfl
  claims := HandOff.unclaimed_fresh capacity

theorem Orderly.unclaimed (h : f.Orderly) (ha : ∀ deadline, f.attempt ≠ .waiting deadline) :
    f.handOff.Unclaimed := by
  have hclaims := h.claims
  split at hclaims
  case h_1 deadline hw => exact (ha deadline hw).elim
  case h_2 => exact hclaims

theorem Orderly.claimed {deadline : Nat} (h : f.Orderly) (ha : f.attempt = .waiting deadline) :
    f.handOff.Claimed () := by
  have hclaims := h.claims
  simpa only [ha] using hclaims

theorem Orderly.unclaimed_giveUp (h : f.Orderly) : f.giveUp.handOff.Unclaimed := by
  unfold giveUp
  split
  case h_1 hw => exact HandOff.unclaimed_withdraw (h.claimed hw)
  case h_2 hw => exact h.unclaimed hw

theorem Stepping.going (h : f.Stepping a f') (hgoing : f'.course.session.isEnded = false) :
    f.course.session.isEnded = false := by
  cases hs : f.course.session.stage with
  | ended result => simp [Session.isEnded, (h.ended hs).1] at hgoing
  | _ => simp [Session.isEnded, hs]

/-- The input goes on to take rows, unless others tell it that no more come. -/
theorem Stepping.isAccepting (h : f.Stepping a f') (ha : a.cutsOff = false)
    (ht : ∃ begun, f.course.Told begun)
    (hn : f.course.session.isEnded = false → f.isAccepting = true)
    (hgoing : f'.course.session.isEnded = false) : f'.isAccepting = true := by
  have hbefore := hn (h.going hgoing)
  obtain ⟨begun, ht'⟩ := h.told ht
  have hcalls := ht'.finishedCalls_going hgoing
  cases h with
  | finishInput | dropOutput => cases ha
  | start | stop | abort | receive | enter | shutOut => exact hbefore
  | @offer _ _ _ offer | @review _ _ _ _ offer => cases offer <;> exact hbefore
  | begin | look | next | accept | refuse =>
    simp only [course_follow] at hcalls
    simp [follow, hbefore, hcalls]
  | lose =>
    simp only [course_follow] at hcalls
    simp [follow, hbefore, hcalls]

theorem Stepping.orderly (h : f.Stepping a f') (ha : a.cutsOff = false)
    (ht : ∃ begun, f.course.Told begun) (ho : f.Orderly) : f'.Orderly := by
  have haccept := h.isAccepting ha ht ho.isAccepting
  cases h with
  | finishInput | dropOutput => cases ha
  | start | stop | abort | begin | look | next => exact ⟨ho.isOpen, haccept, ho.claims⟩
  | receive hr =>
    refine ⟨(HandOff.passes_receive hr).isOpen.trans ho.isOpen, haccept, ?_⟩
    have hclaimed := HandOff.claimed_receive (t := ()) hr
    cases hat : f.attempt with
    | waiting deadline => exact hclaimed.2 (ho.claimed hat)
    | _ => exact hclaimed.1 (ho.unclaimed (by simp [hat]))
  | enter hat =>
    refine ⟨ho.isOpen, haccept, ?_⟩
    have hu := ho.unclaimed (by simp [hat])
    cases hr : f.pipeline.running <;> exact hu
  | shutOut hat => exact ⟨ho.isOpen, haccept, ho.unclaimed (by simp [hat])⟩
  | @offer _ _ _ offer hat _ _ _ hoff =>
    have hc := HandOff.claimed_offer (ho.unclaimed (by simp [hat])) hoff
    have hopen := (HandOff.passes_offer hoff).1.isOpen.trans ho.isOpen
    cases offer <;> exact ⟨hopen, haccept, hc⟩
  | @review _ _ _ _ offer _ hat _ _ hrev =>
    have hc := HandOff.claimed_review (ho.claimed hat) hrev ho.isOpen
    have hopen := (HandOff.passes_review hrev).1.isOpen.trans ho.isOpen
    cases offer <;> exact ⟨hopen, haccept, hc⟩
  | accept hat | refuse hat => exact ⟨ho.isOpen, haccept, ho.unclaimed (by simp [hat])⟩
  | lose =>
    refine ⟨(passes_giveUp f).isOpen.trans ho.isOpen, haccept, ?_⟩
    simp only [attempt_follow, attempt_giveUp]
    exact ho.unclaimed_giveUp

/-! Steps that send nothing. -/

theorem Stepping.length_queue_le (h : f.Stepping a f') (hs : f'.sent = f.sent) :
    f'.handOff.queue.length ≤ f.handOff.queue.length := by
  rcases h.flows with ⟨ins, outs, hp, hsent, -, -⟩ | rfl
  · obtain rfl : ins = [] := by simpa [hs] using hsent
    have hq := congrArg List.length hp.queue
    simp only [List.append_nil, List.length_append] at hq
    omega
  · exact Nat.zero_le _

/-- With every row that is taken out, less is queued. -/
theorem Stepping.queue_le (h : f.Stepping a f') (hs : f'.sent = f.sent) :
    f'.handOff.queue.length + (if a.isReceive then 1 else 0) ≤ f.handOff.queue.length := by
  have hle := h.length_queue_le hs
  cases h with
  | receive hr =>
    have hq := congrArg List.length (HandOff.passes_receive hr).queue
    simp only [List.length_append, List.length_nil, List.length_singleton] at hq
    simp only [Action.isReceive, if_true]
    omega
  | _ => exact hle

/-- How far a session that sends nothing has to go at most before it rests. -/
def toRest (f : Feed) : Nat :=
  match f.course.session.stage, f.attempt with
  | .submitted, _ => 5
  | .waiting _, _ => 4
  | .delivering _, _ => 3
  | .offering _, .none => 2
  | .offering _, .answered false => 3
  | .offering _, .answered true => 4
  | .offering _, _ => 1
  | .ended _, _ => 0

theorem toRest_eq_zero_iff : f.toRest = 0 ↔ f.course.session.isEnded = true := by
  unfold toRest
  split
  all_goals simp [Session.isEnded, *]

/-- While nothing is queued, a session whose pipeline runs sends a row, or comes nearer to its end. -/
theorem Stepping.toRest_le (h : f.Stepping a f') (hi : f.Idle) (ho : f.Orderly)
    (hr : f.pipeline.running = true) (hq : f.handOff.queue = []) (hc : 0 < f.handOff.capacity)
    (hs : f'.sent = f.sent) :
    f'.toRest + (if a.isOfSession then 1 else 0) ≤ f.toRest := by
  have hsame : a.isOfSession = false → f'.attempt = f.attempt →
      f'.course.session.stage = f.course.session.stage →
      f'.toRest + (if a.isOfSession then 1 else 0) ≤ f.toRest := by
    intro ha hattempt hstage
    rw [ha]
    simp [toRest, hattempt, hstage]
  cases h with
  | start | stop | abort => exact hsame rfl rfl (stage_operate f _)
  | finishInput | receive | dropOutput => exact hsame rfl rfl rfl
  | begin hm =>
    cases hm with
    | begin hst => simp [toRest, hst, Session.begin]
  | look hm => cases hm <;> simp_all [toRest]
  | next hm =>
    have hattempt : (∃ d, f.course.session.stage = .delivering d) → f.attempt = .none := by
      rintro ⟨d, hd⟩
      exact hi (by simp [hd])
    rw [hr] at hm
    cases hm with
    | offer hst => simp [toRest, hst, hattempt ⟨_, hst⟩]
    | halt hst => simp [toRest, hst]
  | enter ha hrow =>
    obtain ⟨d, hst, -⟩ := Session.onOffer?_eq_some hrow
    simp [toRest, hst, ha, hr]
  | shutOut ha hrow _ hn =>
    obtain ⟨d, hst, -⟩ := Session.onOffer?_eq_some hrow
    have := ho.isAccepting (by simp [Session.isEnded, hst])
    simp [hn] at this
  | offer ha _ _ _ hoff =>
    obtain rfl := HandOff.offer_of_empty (ho.unclaimed (by simp [ha])) ho.isOpen hq hc hoff
    simp [hearOffer] at hs
  | review ha _ _ hrev =>
    obtain rfl := HandOff.review_of_empty (ho.claimed ha) ho.isOpen hq hc hrev
    simp [hearOffer] at hs
  | accept ha hm =>
    cases hm with
    | accept hst => simp [toRest, hst, ha, Session.accepted]
  | refuse ha hm =>
    rw [hr] at hm
    cases hm <;> simp_all [toRest]
  | lose hm =>
    cases hm
    simp [toRest]

/-- A session that has ended takes no more turns. -/
theorem Stepping.not_isOfSession (h : f.Stepping a f')
    (he : f.course.session.isEnded = true) : a.isOfSession = false := by
  obtain ⟨result, hs⟩ := Session.exists_result he
  cases h with
  | start | stop | abort | finishInput | receive | dropOutput => rfl
  | enter _ hrow | shutOut _ hrow | offer _ hrow | review _ hrow =>
    obtain ⟨d, hd, -⟩ := Session.onOffer?_eq_some hrow
    simp [hs] at hd
  | begin hm | look hm | lose hm => cases hm <;> simp_all
  | next hm =>
    generalize f.pipeline.running = running at hm
    cases hm <;> simp_all
  | accept _ hm => cases hm; simp_all
  | refuse _ hm =>
    generalize f.pipeline.running = running at hm
    cases hm <;> simp_all

end Feed

namespace TimedFeed

variable {s s' : TimedFeed} {a : Action}

@[simp] def Action.isReceive : Action → Bool
  | .act a => a.isReceive
  | _ => false

/-- The session's task goes on. -/
@[simp] def Action.isOfSession : Action → Bool
  | .act a => a.isOfSession
  | _ => false

theorem Stepping.sent_le (h : s.Stepping a s') : s.feed.sent.length ≤ s'.feed.sent.length := by
  cases h with
  | act _ hf =>
    rcases hf.sent with hsame | ⟨-, -, row, -, hsent⟩
    · exact Nat.le_of_eq (by rw [hsame])
    · simp [hsent]
  | dropPipeline | pass => exact Nat.le_refl _

theorem Stepping.orderly (h : s.Stepping a s') (ha : ∀ b, a = .act b → b.cutsOff = false)
    (ht : ∃ begun, s.feed.course.Told begun) (ho : s.feed.Orderly) : s'.feed.Orderly := by
  cases h with
  | act _ hf => exact hf.orderly (ha _ rfl) ht ho
  | dropPipeline =>
    have hstage := Feed.stage_operate s.feed Pipeline.forgetListeners
    refine ⟨ho.isOpen, fun hgoing => ho.isAccepting ?_, ho.claims⟩
    simpa only [Session.isEnded, hstage] using hgoing
  | pass => exact ho

theorem Stepping.queue_le (h : s.Stepping a s') (hs : s'.feed.sent = s.feed.sent) :
    s'.feed.handOff.queue.length + (if a.isReceive then 1 else 0) ≤
      s.feed.handOff.queue.length := by
  cases h with
  | act _ hf => exact hf.queue_le hs
  | dropPipeline | pass => exact Nat.le_refl _

theorem Stepping.toRest_le (h : s.Stepping a s') (hi : s.feed.Idle) (ho : s.feed.Orderly)
    (hr : s.feed.pipeline.running = true) (hq : s.feed.handOff.queue = [])
    (hc : 0 < s.feed.handOff.capacity) (hs : s'.feed.sent = s.feed.sent) :
    s'.feed.toRest + (if a.isOfSession then 1 else 0) ≤ s.feed.toRest := by
  cases h with
  | act _ hf => exact hf.toRest_le hi ho hr hq hc hs
  | dropPipeline =>
    have hstage := Feed.stage_operate s.feed Pipeline.forgetListeners
    refine Nat.le_of_eq ?_
    simp only [Feed.toRest, hstage]
    rfl
  | pass => exact Nat.le_refl _

/-- News leave the session where it stands. -/
theorem Stepping.stage_of_news {gate : Gate} (h : s.Stepping a s') (hn : a.news? = some gate) :
    s'.stage = s.stage := by
  cases h with
  | pass => cases hn
  | dropPipeline => exact Feed.stage_operate ..
  | act _ hf =>
    cases hf with
    | start | abort => exact Feed.stage_operate ..
    | _ => cases hn

/-- A session that reports while its pipeline runs, and without a limit, has handed over all its rows. -/
theorem Stepping.completes {outcome : ReplayOutcome} (h : s.Stepping a s')
    (hs : s.stage ≠ .ended (.ok outcome)) (hs' : s'.stage = .ended (.ok outcome))
    (hr : s.feed.pipeline.running = true)
    (hl : s.feed.course.session.limits.maxPutAttempts = none)
    (ht : ∃ begun, s.feed.course.Told begun) :
    outcome = ⟨s.feed.course.session.id, s.feed.course.session.rows.length,
      s.feed.course.session.rows.length⟩ := by
  obtain ⟨begun, ht⟩ := ht
  rcases h.course with hrest | ⟨-, action, b, -, -, hb, hm⟩
  · exact (hs (hrest.stage.symm.trans hs')).elim
  · simp only [stage] at hs hs'
    generalize s'.feed.course = c' at hs' hm
    cases hm with
    | @halt d _ hst hn =>
      cases hs'
      simp only [Course.Told, hst] at ht
      have hdone : d.remaining = [] := by
        refine hn.resolve_left fun hstop => ?_
        cases action <;> simp_all [Feed.Action.move?]
      have hlen := congrArg List.length ht.2.remaining
      have hle := ht.2.le
      simp only [hdone, List.length_nil, List.length_drop] at hlen
      simp only [Course.outcome, ReplayOutcome.mk.injEq, true_and, and_true]
      omega
    | stopped => cases action <;> simp_all [Feed.Action.move?]
    | exhausted _ _ hlimit => simp [hl] at hlimit
    | openGate | abandonGate => exact (hs hs').elim
    | _ => cases hs'

/-! Whole runs. -/

variable {branch : Branch} {capacity i m n : Nat} {id : SessionId} {rows : RowSequence}
  {limits : ReplayLimits} {R : Run next? (armed branch capacity id rows limits)}

/-- The pipeline is started, and nothing else comes of it before; if its session has begun to wait by
then, the time is not over. -/
structure StartedInTime (R : Run next? (armed branch capacity id rows limits)) (i : Nat) : Prop where
  first : HearsFirst R i .opened
  early : ∀ b start, b < i → R.event b = some (.act (.begin start)) →
    (R.state i).now < start + limits.readyTimeout.nanos

/-- The pipeline is started, and nothing else comes of it before; its session has not ended by then. -/
structure Awaited (R : Run next? (armed branch capacity id rows limits)) (i : Nat) : Prop where
  first : HearsFirst R i .opened
  going : ∀ result, (R.state i).stage ≠ .ended result

/-- Once started, the pipeline runs on. -/
def KeepsRunning (R : Run next? (armed branch capacity id rows limits)) (i : Nat) : Prop :=
  ∀ n, i < n → (R.state n).feed.pipeline.running = true

/-- The consumer stays and goes on to read, and nobody but the session ends its input. -/
structure Drained (R : Run next? (armed branch capacity id rows limits)) : Prop where
  stays : ∀ n a, R.event n = some (.act a) → a.cutsOff = false
  reads : R.Just Action.isReceive

/-- The session's task has its turns, and is not lost. -/
structure Executed (R : Run next? (armed branch capacity id rows limits)) : Prop where
  turns : R.Just Action.isOfSession
  kept : ∀ n a, R.event n = some a → ¬ (R.state n).Loses a

theorem Drained.orderly (h : Drained R) (n : Nat) : (R.state n).feed.Orderly := by
  refine R.stable (P := fun s => s.feed.Orderly) (m := 0) ?_ (Nat.zero_le n) fun i a _ he hi => ?_
  · rw [R.initial]
    exact Feed.orderly_armed ..
  · refine (stepping (R.step i a he)).orderly ?_ (sound R i).told hi
    rintro b rfl
    exact h.stays i b he

theorem Executed.not_lost (h : Executed R) (n : Nat) :
    (R.state n).stage ≠ .ended (.error .taskLost) := by
  intro hend
  obtain ⟨k, a, -, -, he, hk, hk'⟩ :=
    R.exists_change (P := fun s => s.stage = .ended (.error .taskLost)) (m := 0)
      (by rw [R.initial]; exact nofun) hend (Nat.zero_le n)
  exact h.kept k a he ((stepping (R.step k a he)).loses_of_lost hk hk')

theorem HearsFirst.shut {gate : Gate} (h : HearsFirst R i gate) (hni : n ≤ i) :
    (R.state n).gate = .shut := by
  have hbefore : ∀ j < n, ∀ a, R.event j = some a → a.news? = none := fun j hj => h.2 j (by omega)
  exact (expectant R hbefore).gate

theorem HearsFirst.lt_of_opened {gate : Gate} (h : HearsFirst R i gate)
    (hg : (R.state n).gate = .opened) : i < n := by
  refine Nat.lt_of_not_le fun hni => ?_
  rw [h.shut hni] at hg
  cases hg

theorem HearsFirst.not_abandoned (h : HearsFirst R i .opened) :
    (R.state n).stage ≠ .ended (.error .readinessAbandoned) := by
  intro hend
  have hsettled := settled R n
  simp only [stage] at hend
  simp only [Session.Settled, hend] at hsettled
  by_cases hin : i < n
  · have hopened := h.gate hin
    simp [TimedFeed.gate, hsettled] at hopened
  · have hshut := h.shut (Nat.le_of_not_lt hin)
    simp [TimedFeed.gate, hsettled] at hshut

/-- A wait for the gate that ends without news ends while the gate is shut, so before the start. -/
theorem Awaited.not_timed_out {waited : Span} (h : Awaited R i) :
    (R.state n).stage ≠ .ended (.error (.readinessTimeout waited)) := by
  intro hend
  obtain ⟨k, a, -, -, he, hk, hk'⟩ :=
    R.exists_change (P := fun s => s.stage = .ended (.error (.readinessTimeout waited))) (m := 0)
      (by rw [R.initial]; exact nofun) hend (Nat.zero_le n)
  have hstep := stepping (R.step k a he)
  have hki : k ≤ i := by
    refine Nat.le_of_not_lt fun hik => ?_
    have hopened := h.first.gate hik
    simp [(hstep.times_out hk hk').1] at hopened
  rcases Nat.lt_or_eq_of_le hki with hki | rfl
  · exact h.going _ (ended_stays R hk' hki)
  · obtain ⟨b, hb, hn⟩ := h.first.1
    obtain rfl : a = b := Option.some.inj (he.symm.trans hb)
    exact hk ((hstep.stage_of_news hn).symm.trans hk')

/-- The wait for the gate would have ended when its time was over, and that is later. -/
theorem StartedInTime.awaited (h : StartedInTime R i) (hx : Executed R) : Awaited R i := by
  refine ⟨h.first, fun result hend => ?_⟩
  have hsettled := settled R i
  have hshut := h.first.shut (Nat.le_refl i)
  have hended := hend
  simp only [stage] at hended
  simp only [TimedFeed.gate] at hshut
  cases result with
  | ok outcome => simp [Session.Settled, hended, hshut] at hsettled
  | error error =>
    cases error with
    | taskLost => exact hx.not_lost i hend
    | readinessAbandoned => exact h.first.not_abandoned hend
    | readinessTimeout waited =>
      obtain ⟨b, start, hbi, hb⟩ := begins R hend (by simp)
      obtain ⟨k, hki, hnow, -⟩ := times_out R hb hend
      have hearly := h.early b start hbi hb
      have := now_mono R (Nat.le_of_lt hki)
      omega

/-- A session whose pipeline is started while it goes on does not give up. -/
theorem Awaited.reports {result : Except ReplayError ReplayOutcome} (h : Awaited R i)
    (hx : Executed R) (hend : (R.state n).stage = .ended result) :
    ∃ outcome, result = .ok outcome := by
  cases result with
  | ok outcome => exact ⟨outcome, rfl⟩
  | error error =>
    cases error with
    | taskLost => exact (hx.not_lost n hend).elim
    | readinessAbandoned => exact (h.first.not_abandoned hend).elim
    | readinessTimeout waited => exact (h.not_timed_out hend).elim

/-- What a session reports of a pipeline that runs on, without a limit: all its rows. -/
theorem Awaited.reports_all {outcome : ReplayOutcome} (h : Awaited R i)
    (hr : KeepsRunning R i) (hl : limits.maxPutAttempts = none)
    (hend : (R.state n).stage = .ended (.ok outcome)) :
    outcome = ⟨id, rows.length, rows.length⟩ := by
  obtain ⟨k, a, -, -, he, hk, hk'⟩ :=
    R.exists_change (P := fun s => s.stage = .ended (.ok outcome)) (m := 0)
      (by rw [R.initial]; exact nofun) hend (Nat.zero_le n)
  have hstep := stepping (R.step k a he)
  have hik : i < k := by
    have hsettled := settled R (k + 1)
    have hended := hk'
    simp only [stage] at hended
    simp only [Session.Settled, hended] at hsettled
    refine Nat.lt_of_le_of_ne (Nat.le_of_lt_succ (h.first.lt_of_opened hsettled)) ?_
    rintro rfl
    obtain ⟨b, hb, hn⟩ := h.first.1
    obtain rfl : a = b := Option.some.inj (he.symm.trans hb)
    exact hk ((hstep.stage_of_news hn).symm.trans hk')
  have hsame := (sound R k).same
  have hlimits : (R.state k).feed.course.session.limits.maxPutAttempts = none := by
    rw [hsame.limits]
    exact hl
  have hcomplete := hstep.completes hk hk' (hr k hik) hlimits (sound R k).told
  rw [hcomplete, hsame.id, hsame.rows]
  rfl

theorem sent_in_order (R : Run next? (armed branch capacity id rows limits)) (n : Nat) :
    (R.state n).feed.sent <+: rows := by
  induction n with
  | zero =>
    rw [R.initial]
    exact List.nil_prefix
  | succ n ih =>
    cases he : R.event n with
    | none => rwa [R.pad n he]
    | some a =>
      have hsound := sound R n
      have hstep := stepping (R.step n a he)
      obtain ⟨begun, ht⟩ := hsound.told
      generalize R.state (n + 1) = s' at hstep ⊢
      cases hstep with
      | act _ hf => exact hf.sent_in_order hsound.counted ht hsound.same.rows ih
      | dropPipeline | pass => exact ih

/-- From some time on no row is sent. -/
theorem sending_ends (R : Run next? (armed branch capacity id rows limits)) (m : Nat) :
    ∃ n, m ≤ n ∧ ∀ i, n ≤ i → (R.state (i + 1)).feed.sent = (R.state i).feed.sent := by
  obtain ⟨n, hmn, hn⟩ :=
    R.settles (m := m) (fun s => rows.length - s.feed.sent.length) fun i a _ he => by
      have := (stepping (R.step i a he)).sent_le
      omega
  refine ⟨n, hmn, fun i hni => ?_⟩
  have hlen := (hn i hni).trans (hn (i + 1) (by omega)).symm
  have hle := (sent_in_order R i).length_le
  have hle' := (sent_in_order R (i + 1)).length_le
  have hi := List.prefix_iff_eq_take.mp (sent_in_order R i)
  have hi' := List.prefix_iff_eq_take.mp (sent_in_order R (i + 1))
  rw [hi, hi', show (R.state (i + 1)).feed.sent.length = (R.state i).feed.sent.length by omega]

theorem session_can_go_on (h : HearsFirst R i .opened) (hin : i < n)
    (he : (R.state n).feed.course.session.isEnded = false) :
    ∃ a, Action.isOfSession a = true ∧ (next? (R.state n) a).isSome = true := by
  have hopened : (R.state n).feed.course.session.gate = .opened := h.gate hin
  obtain ⟨a, ha, htime, hnext⟩ := (R.state n).feed.can_go_on_at (patient R n) he (clock_le R n)
    (by simp [hopened])
  refine ⟨.act a, ha, ?_⟩
  have hall : a.time?.all (· = (R.state n).now) = true := by
    cases hat : a.time? with
    | none => rfl
    | some time => simp [htime time hat]
  simp [next?, hall, hnext]

/-- A session whose pipeline is started, runs on and is drained comes to its end. -/
theorem comes_to_end (hs : HearsFirst R i .opened) (hr : KeepsRunning R i) (hd : Drained R)
    (hx : Executed R) :
    ∃ n, i < n ∧ ∀ m, n ≤ m → (R.state m).feed.course.session.isEnded = true ∧
      (R.state m).feed.handOff.queue = [] := by
  obtain ⟨n₁, hn₁, hsent⟩ := sending_ends R (i + 1)
  obtain ⟨n₂, hn₂, hqueue⟩ := R.runs_out (m := n₁) (fun s => s.feed.handOff.queue.length) hd.reads
    (fun j a hj he => (stepping (R.step j a he)).queue_le (hsent j hj)) fun j _ hpos => by
      obtain ⟨row, rest, hq⟩ := List.exists_cons_of_length_pos hpos
      refine ⟨.act .receive, rfl, ?_⟩
      simp [next?, Feed.Action.time?, Feed.next?, HandOff.receive_of_queue hq]
  have hempty : ∀ j, n₂ ≤ j → (R.state j).feed.handOff.queue = [] := fun j hj =>
    List.length_eq_zero_iff.mp (hqueue j hj)
  obtain ⟨n₃, hn₃, hrest⟩ := R.runs_out (m := n₂) (fun s => s.feed.toRest) hx.turns
    (fun j a hj he => by
      have hsound := sound R j
      refine (stepping (R.step j a he)).toRest_le hsound.idle (hd.orderly j) (hr j (by omega))
        (hempty j hj) ?_ (hsent j (by omega))
      rw [hsound.conserved.capacity]
      omega)
    fun j hj hpos => by
      refine session_can_go_on hs (by omega) ?_
      rw [← Bool.not_eq_true, ← Feed.toRest_eq_zero_iff]
      exact Nat.ne_of_gt hpos
  refine ⟨n₃, by omega, fun m hm => ?_⟩
  exact ⟨Feed.toRest_eq_zero_iff.mp (hrest m hm), hempty m (by omega)⟩

/-- For any rows and limits without one on attempts: a pipeline that is started before its session
gives up, runs on and is drained by its consumer gives it the rows of the sequence, all of them and
nothing else, and tells it then that no more come; and the session reports them all. -/
theorem drained_whole (hs : Awaited R i) (hr : KeepsRunning R i) (hd : Drained R)
    (hx : Executed R) (hl : limits.maxPutAttempts = none) :
    ∃ n, ∀ m, n ≤ m → (R.state m).Resolved (.ok ⟨id, rows.length, rows.length⟩) ∧
      (R.state m).feed.AtEnd ∧ (R.state m).feed.received = rows := by
  obtain ⟨n, hin, hn⟩ := comes_to_end hs.first hr hd hx
  refine ⟨n, fun m hnm => ?_⟩
  obtain ⟨hended, hqueue⟩ := hn m hnm
  have hsound := sound R m
  obtain ⟨result, hend⟩ := Session.exists_result hended
  obtain ⟨outcome, rfl⟩ := hs.reports hx hend
  obtain rfl := hs.reports_all hr hl hend
  have hcounted := hsound.counted
  simp only [Feed.Counted, hend] at hcounted
  have hsent : (R.state m).feed.sent = rows := (sent_in_order R m).eq_of_length hcounted
  have hreceived := hsound.conserved.present (hd.orderly m).isOpen
  rw [hqueue, List.append_nil, hsent] at hreceived
  obtain ⟨begun, ht⟩ := hsound.told
  refine ⟨(resolved_iff R m).mpr hend, ⟨hqueue, ?_, fun deadline hw => ?_⟩, hreceived⟩
  · exact Feed.not_accepting_of_closed hsound.attending (Feed.closed_of_ended ht hend (by simp))
  · rw [hsound.idle (by simp [hend])] at hw
    cases hw

end TimedFeed

end RowReplay
