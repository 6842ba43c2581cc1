import Mathlib.Tactic.IntervalCases
import RowReplay.Config.Validation
import RowReplay.Proofs.Pipeline.NativeRows
import RowReplay.Proofs.Replay.Draining

/-!
A replay in the place of a pipeline's own producer. The session has its own time limit for a row and
tries again when it is over; to a consumer that never leaves the hand-off full for as long as a
producer would wait, it gives the rows that a producer would give.
-/
namespace RowReplay

namespace TimedFeed

variable {s s' : TimedFeed} {a : Action}

@[simp] def Action.cutsOff : Action → Bool
  | .act a => a.cutsOff
  | _ => false

def outlet : Outlet TimedFeed Action :=
  ⟨fun s => s.feed.handOff, now, fun s => s.feed.pipeline.running, fun s => s.feed.AtEnd,
    Action.isReceive, Action.cutsOff⟩

/-! How long a session has tried. -/

/-- How often the session has tried in vain to put the row on offer. An attempt that waits counts
as if its time were over. -/
def tries? (s : TimedFeed) : Option Nat :=
  match s.stage, s.feed.attempt with
  | .offering d, .none | .offering d, .entered => some d.attempts
  | .offering d, .waiting _ | .offering d, .answered false => some (d.attempts + 1)
  | _, _ => none

/-- The time by which the attempts that count have taken theirs. -/
def due (s : TimedFeed) : Nat :=
  match s.feed.attempt with
  | .waiting deadline => deadline
  | _ => s.now

/-- How long an attempt may take. -/
def patience (s : TimedFeed) : Nat := s.feed.course.session.limits.putTimeout.nanos

theorem tries?_eq_none (h : ∀ d, s.stage ≠ .offering d) : s.tries? = none := by
  unfold tries?
  split
  case h_5 => rfl
  all_goals exact (h _ ‹_›).elim

theorem Stepping.isFull (h : s.Stepping a s') (hs : s'.feed.sent = s.feed.sent)
    (hf : outlet.IsFull s') : outlet.IsFull s := by
  have hqueue := h.queue_le hs
  have hcapacity : s'.feed.handOff.capacity = s.feed.handOff.capacity := by
    cases h with
    | act _ hstep =>
      rcases hstep.flows with ⟨ins, outs, hp, -⟩ | rfl
      · exact hp.capacity
      · rfl
    | dropPipeline | pass => rfl
  simp only [outlet, Outlet.IsFull] at hf ⊢
  omega

/-- What a step to where the hand-off is full means for the attempts that count: there are none yet,
or the hand-off was full before, and their time grows with their number. -/
def Counts (s s' : TimedFeed) (k : Nat) : Prop :=
  k = 0 ∧ s'.due = s'.now ∨
    ∃ j, s.tries? = some j ∧ outlet.IsFull s ∧
      ∀ time, time + j * s.patience ≤ s.due → time + k * s.patience ≤ s'.due

theorem Stepping.tries {k : Nat} (h : s.Stepping a s') (ha : a.cutsOff = false)
    (hi : s.feed.Idle) (ho : s.feed.Orderly) (hp : s.feed.course.session.Patient)
    (hr : ∀ d, s.stage = .offering d → s.feed.pipeline.running = true)
    (hk : s'.tries? = some k) (hf : outlet.IsFull s') : s.Counts s' k := by
  have hfull := fun hs => h.isFull hs hf
  have hsame : s'.stage = s.stage → s'.feed.attempt = s.feed.attempt → s.now ≤ s'.now →
      s'.feed.sent = s.feed.sent → s.Counts s' k := by
    intro hstage hattempt hnow hsent
    have htries : s.tries? = some k := by rw [← hk, tries?, tries?, hstage, hattempt]
    refine Or.inr ⟨k, htries, hfull hsent, fun time ht => ?_⟩
    refine Nat.le_trans ht ?_
    unfold due
    rw [hattempt]
    split
    · exact Nat.le_refl _
    · exact hnow
  cases h with
  | pass ht => exact hsame rfl rfl ht rfl
  | dropPipeline => exact hsame (Feed.stage_operate ..) rfl (Nat.le_refl _) rfl
  | act htime hstep =>
    cases hstep with
    | start | stop | abort => exact hsame (Feed.stage_operate ..) rfl (Nat.le_refl _) rfl
    | receive => exact hsame rfl rfl (Nat.le_refl _) rfl
    | finishInput | dropOutput => cases ha
    | begin hm | look hm =>
      rw [tries?_eq_none fun _ hst => by cases hm <;> cases hst] at hk
      cases hk
    | next hm =>
      generalize hrun : s.feed.pipeline.running = running at hm
      cases hm with
      | halt =>
        rw [tries?_eq_none fun _ hst' => by cases hst'] at hk
        cases hk
      | @offer d _ hst =>
        have hattempt : s.feed.attempt = .none := hi (by simp [hst])
        simp only [Session.Patient, hst] at hp
        simp [tries?, stage, hattempt, hp] at hk
        exact Or.inl ⟨hk.symm, by simp [due, hattempt]⟩
    | enter hat hrow =>
      obtain ⟨d, hst, -⟩ := Session.onOffer?_eq_some hrow
      rw [hr d hst, if_pos rfl] at hk ⊢
      refine Or.inr ⟨k, ?_, hfull rfl, fun time ht => ?_⟩
      · rw [← hk]
        simp [tries?, stage, hst, hat]
      · simpa [due, hat] using ht
    | shutOut _ hrow _ hn =>
      obtain ⟨d, hst, -⟩ := Session.onOffer?_eq_some hrow
      have := ho.isAccepting (by simp [Session.isEnded, hst])
      simp [hn] at this
    | @offer now row handOff offer hat hrow _ _ hoff =>
      obtain ⟨d, hst, -⟩ := Session.onOffer?_eq_some hrow
      obtain rfl := htime now rfl
      cases offer with
      | accepted => simp [tries?, stage, Feed.hearOffer, hst] at hk
      | refused =>
        have := HandOff.isOpen_of_refused hoff
        simp [ho.isOpen] at this
      | waiting =>
        obtain rfl : d.attempts + 1 = k := by simpa [tries?, stage, Feed.hearOffer, hst] using hk
        refine Or.inr ⟨d.attempts, by simp [tries?, stage, hst, hat], hfull rfl, fun time ht => ?_⟩
        simp only [due, hat, patience] at ht
        simp only [due, Feed.hearOffer, patience]
        rw [Nat.succ_mul]
        omega
    | @review now deadline row handOff offer next hat hrow _ hrev =>
      obtain ⟨d, hst, -⟩ := Session.onOffer?_eq_some hrow
      obtain rfl := htime now rfl
      cases offer with
      | accepted => simp [tries?, stage, Feed.hearOffer, hst] at hk
      | refused =>
        obtain ⟨hdue, -⟩ := HandOff.full_of_refused (ho.claimed hat) ho.isOpen hrev
        obtain rfl : d.attempts + 1 = k := by simpa [tries?, stage, Feed.hearOffer, hst] using hk
        have htries : s.tries? = some (d.attempts + 1) := by simp [tries?, stage, hst, hat]
        refine Or.inr ⟨_, htries, hfull rfl, fun time ht => ?_⟩
        simp only [decide_eq_true_eq] at hdue
        simp only [due, hat] at ht
        exact Nat.le_trans ht hdue
      | waiting =>
        obtain rfl : d.attempts + 1 = k := by simpa [tries?, stage, Feed.hearOffer, hst] using hk
        have htries : s.tries? = some (d.attempts + 1) := by simp [tries?, stage, hst, hat]
        refine Or.inr ⟨_, htries, hfull rfl, fun time ht => ?_⟩
        simp only [due, hat] at ht
        exact ht
    | accept _ hm =>
      cases hm with
      | accept =>
        rw [tries?_eq_none fun _ hst' => by cases hst'] at hk
        cases hk
    | refuse hat hm =>
      generalize hrun : s.feed.pipeline.running = running at hm
      cases hm with
      | overflow | stopped | exhausted =>
        rw [tries?_eq_none fun _ hst' => by cases hst'] at hk
        cases hk
      | @again d hst =>
        obtain rfl : d.attempts + 1 = k := by simpa [tries?, stage] using hk
        have htries : s.tries? = some (d.attempts + 1) := by simp [tries?, stage, hst, hat]
        refine Or.inr ⟨_, htries, hfull rfl, fun time ht => ?_⟩
        simpa [due, hat] using ht
    | lose hm =>
      cases hm with
      | lose =>
        rw [tries?_eq_none fun _ hst' => by cases hst'] at hk
        cases hk

/-- A row is refused only when the hand-off is full. -/
theorem Stepping.refused {d : Delivery} (h : s.Stepping a s') (ha : a.cutsOff = false)
    (hi : s.feed.Idle) (ho : s.feed.Orderly)
    (hr : ∀ d, s.stage = .offering d → s.feed.pipeline.running = true)
    (hst : s'.stage = .offering d) (hat : s'.feed.attempt = .answered false) :
    s.stage = .offering d ∧ s.feed.attempt = .answered false ∨ outlet.IsFull s' := by
  cases h with
  | pass => exact Or.inl ⟨hst, hat⟩
  | dropPipeline => exact Or.inl ⟨(Feed.stage_operate ..).symm.trans hst, hat⟩
  | act _ hstep =>
    cases hstep with
    | start | stop | abort => exact Or.inl ⟨(Feed.stage_operate ..).symm.trans hst, hat⟩
    | receive => exact Or.inl ⟨hst, hat⟩
    | finishInput | dropOutput => cases ha
    | begin hm | look hm => cases hm <;> cases hst
    | next hm =>
      have hnone : s.feed.attempt = .none := by
        refine hi fun d hoffer => ?_
        generalize s.feed.pipeline.running = running at hm
        cases hm <;> simp_all
      simp [hnone] at hat
    | enter _ hrow =>
      obtain ⟨d, hoffer, -⟩ := Session.onOffer?_eq_some hrow
      simp [hr d hoffer] at hat
    | shutOut _ hrow _ hn =>
      obtain ⟨d, hoffer, -⟩ := Session.onOffer?_eq_some hrow
      have := ho.isAccepting (by simp [Session.isEnded, hoffer])
      simp [hn] at this
    | @offer _ _ _ offer _ _ _ _ hoff =>
      cases offer with
      | accepted | waiting => cases hat
      | refused =>
        have := HandOff.isOpen_of_refused hoff
        simp [ho.isOpen] at this
    | @review _ _ _ _ offer _ hwait _ _ hrev =>
      cases offer with
      | accepted | waiting => cases hat
      | refused =>
        obtain ⟨-, hfull⟩ := HandOff.full_of_refused (ho.claimed hwait) ho.isOpen hrev
        have hp := (HandOff.passes_review hrev).1
        refine Or.inr ?_
        simp only [outlet, Outlet.IsFull, Feed.hearOffer, hp.capacity, hp.queue_eq]
        exact hfull
    | accept | refuse => cases hat
    | lose => simp at hat

/-! Whole runs. -/

variable {branch : Branch} {capacity i l m n : Nat} {id : SessionId} {rows : RowSequence}
  {limits : ReplayLimits} {R : Run next? (armed branch capacity id rows limits)} {d : Delivery}

/-- The executor gives the session's task its turns, and does not throw it away. -/
structure Hosted (R : Run next? (armed branch capacity id rows limits)) : Prop where
  turns : R.Just Action.isOfSession
  kept : ∀ n, R.event n ≠ some (.act .lose)

theorem running_of_offering (hs : HearsFirst R i .opened) (hg : outlet.Steady R i)
    (hst : (R.state n).stage = .offering d) : (R.state n).feed.pipeline.running = true := by
  have hsettled := settled R n
  simp only [stage] at hst
  simp only [Session.Settled, hst] at hsettled
  exact hg.running n (hs.lt_of_opened hsettled)

/-- A session that has tried in vain to put a row, and finds no room, has found none all the time. -/
theorem full_since (hs : HearsFirst R i .opened) (hg : outlet.Steady R i) (hd : Drained R) {k : Nat}
    (hk : (R.state n).tries? = some k) (hf : outlet.IsFull (R.state n)) :
    ∃ time, time + k * limits.putTimeout.nanos ≤ (R.state n).due ∧
      R.HeldSince outlet.IsFull outlet.now time n := by
  induction n generalizing k with
  | zero =>
    rw [R.initial] at hk
    cases hk
  | succ n ih =>
    cases he : R.event n with
    | none =>
      rw [R.pad n he] at hk hf ⊢
      obtain ⟨time, ht, hheld⟩ := ih hk hf
      exact ⟨time, ht, hheld.succ (by rwa [R.pad n he])⟩
    | some a =>
      have hsound := sound R n
      have hpatience : (R.state n).patience = limits.putTimeout.nanos :=
        congrArg (·.putTimeout.nanos) hsound.same.limits
      have hcounts := (stepping (R.step n a he)).tries (hg.stays n a he) hsound.idle (hd.orderly n)
        (patient R n) (fun d hst => running_of_offering hs hg hst) hk hf
      rcases hcounts with ⟨rfl, hdue⟩ | ⟨j, hj, hfull, hadd⟩
      · refine ⟨_, ?_, .refl hf⟩
        rw [Nat.zero_mul, hdue]
        exact Nat.le_refl _
      · obtain ⟨time, ht, hheld⟩ := ih hj hfull
        rw [← hpatience] at ht ⊢
        exact ⟨time, hadd time ht, hheld.succ hf⟩

/-- All the attempts to put one row that are refused take less time than a producer would wait. -/
theorem refused_in_time (hs : HearsFirst R i .opened) (hg : outlet.Steady R i) (hd : Drained R)
    (hst : (R.state n).stage = .offering d) (hat : (R.state n).feed.attempt = .answered false) :
    (d.attempts + 1) * limits.putTimeout.nanos < producerTimeout.nanos := by
  induction n with
  | zero =>
    rw [R.initial] at hat
    cases hat
  | succ n ih =>
    cases he : R.event n with
    | none =>
      rw [R.pad n he] at hst hat
      exact ih hst hat
    | some a =>
      rcases (stepping (R.step n a he)).refused (hg.stays n a he) (sound R n).idle (hd.orderly n)
        (fun d hst => running_of_offering hs hg hst) hst hat with ⟨hst, hat⟩ | hf
      · exact ih hst hat
      · obtain ⟨time, ht, hheld⟩ :=
          full_since hs hg hd (k := d.attempts + 1) (by simp [tries?, hst, hat]) hf
        have hbrisk := hg.brisk (n + 1) time hheld
        simp only [due, hat] at ht
        simp only [outlet] at hbrisk
        omega

/-- A task that is not thrown away is not lost either by counting too far. -/
theorem not_loses (hs : HearsFirst R i .opened) (hg : outlet.Steady R i) (hd : Drained R)
    (hx : Hosted R) (ht : 0 < limits.putTimeout.nanos) (he : R.event n = some a) :
    ¬ (R.state n).Loses a := by
  rintro (rfl | ⟨rfl, d, hst, hcount⟩)
  · exact hx.kept n he
  · have hat : (R.state n).feed.attempt = .answered false := by
      have hstep := stepping (R.step n _ he)
      generalize R.state (n + 1) = s' at hstep
      cases hstep with
      | act _ hstep =>
        cases hstep with
        | refuse hat => exact hat
    have hless := refused_in_time hs hg hd hst hat
    have hle : attemptBound * 1 ≤ attemptBound * limits.putTimeout.nanos := Nat.mul_le_mul_left _ ht
    rw [hcount] at hless
    have : producerTimeout.nanos < attemptBound * 1 := by decide
    omega

/-! The end. -/

/-- The session has told the consumer that no more rows come, and it has received them all. -/
structure Over (rows : RowSequence) (s : TimedFeed) : Prop where
  reports : ∃ outcome, s.stage = .ended (.ok outcome)
  atEnd : s.feed.AtEnd
  received : s.feed.received = rows
  finishedCalls : s.feed.course.finishedCalls = 1

theorem over_of_reports {session : Session} {outcome : ReplayOutcome}
    (h : s.feed.Sound branch capacity session) (hend : s.stage = .ended (.ok outcome))
    (hq : s.feed.handOff.queue = []) (hr : s.feed.received = rows) : s.Over rows := by
  obtain ⟨begun, ht⟩ := h.told
  have hclosed := Feed.closed_of_ended ht hend nofun
  have hidle : s.feed.attempt = .none := h.idle fun d hd => by
    rw [stage, hd] at hend
    cases hend
  exact ⟨⟨outcome, hend⟩, ⟨hq, Feed.not_accepting_of_closed h.attending hclosed, by simp [hidle]⟩,
    hr, hclosed.finishedCalls⟩

/-- Nothing comes out of the hand-off any more. -/
theorem Stepping.over {session : Session} (h : s.Stepping a s')
    (hs : s.feed.Sound branch capacity session) (ho : s.Over rows) : s'.Over rows := by
  obtain ⟨outcome, hend⟩ := ho.reports
  have hstays : s'.feed.handOff.queue = [] ∧ s'.feed.received = s.feed.received := by
    cases h with
    | dropPipeline | pass => exact ⟨ho.atEnd.queue, rfl⟩
    | act _ hstep =>
      have hidle : s.feed.attempt = .none := hs.idle fun d hd => by
        rw [stage, hd] at hend
        cases hend
      rcases hstep.flows with ⟨ins, outs, hp, hsent, hreceived, -⟩ | rfl
      · obtain rfl : ins = [] := by
          rcases hstep.sent with hsame | ⟨hunder, -⟩
          · simpa [hsame] using hsent
          · simp [hidle, Attempt.isUnderWay] at hunder
        have hqueue := hp.queue
        rw [ho.atEnd.queue, List.append_nil] at hqueue
        obtain ⟨houts, hqueue⟩ := List.append_eq_nil_iff.mp hqueue.symm
        rw [houts, List.append_nil] at hreceived
        exact ⟨hqueue, hreceived⟩
      · exact ⟨rfl, rfl⟩
  exact over_of_reports (h.sound hs) (h.ended hend) hstays.1 (hstays.2.trans ho.received)

/-- The session still goes on when the pipeline is started: else the stream would have ended. -/
theorem HearsFirst.awaited (h : HearsFirst R i .opened) (hx : Executed R)
    (hgoing : ¬ (R.state i).feed.AtEnd) : Awaited R i := by
  refine ⟨h, fun result hend => ?_⟩
  have hsettled := settled R i
  have hshut := h.shut (Nat.le_refl i)
  have hended := hend
  simp only [stage] at hended
  simp only [TimedFeed.gate] at hshut
  cases result with
  | ok outcome => simp [Session.Settled, hended, hshut] at hsettled
  | error error =>
    cases error with
    | taskLost => exact hx.not_lost i hend
    | readinessAbandoned => exact hgoing (at_end R hend rfl (Nat.le_refl i))
    | readinessTimeout waited => exact hgoing (at_end R hend rfl (Nat.le_refl i))

theorem over_of_steady (hs : HearsFirst R i .opened) (hg : outlet.Steady R i)
    (hgoing : ¬ (R.state i).feed.AtEnd) (hreads : R.Just Action.isReceive) (hx : Hosted R)
    (hl : limits.maxPutAttempts = none) (ht : 0 < limits.putTimeout.nanos) :
    ∃ n, ∀ m, n ≤ m → (R.state m).Over rows := by
  have hd : Drained R := ⟨fun n a he => hg.stays n (.act a) he, hreads⟩
  have hx : Executed R := ⟨hx.turns, fun n a he => not_loses hs hg hd hx ht he⟩
  obtain ⟨n, hn⟩ := drained_whole (hs.awaited hx hgoing) hg.running hd hx hl
  refine ⟨n, fun m hnm => ?_⟩
  obtain ⟨hresolved, hend, hreceived⟩ := hn m hnm
  exact over_of_reports (sound R m) ((resolved_iff R m).mp hresolved) hend.queue hreceived

/-! The run up to the end. -/

theorem HearsFirst.upTo {gate : Gate} (h : HearsFirst R i gate) (hil : i < l) :
    HearsFirst (R.upTo l) i gate := by
  obtain ⟨⟨a, he, hn⟩, hnone⟩ := h
  exact ⟨⟨a, R.event_upTo.mpr ⟨hil, he⟩, hn⟩,
    fun j hj b hb => hnone j hj b (R.event_upTo.mp hb).2⟩

theorem not_receive_of_atEnd (h : s.feed.AtEnd) (ha : a.isReceive = true) : s.next? a = none := by
  refine Option.eq_none_iff_forall_ne_some.mpr fun s' hnext => ?_
  cases stepping hnext with
  | dropPipeline | pass => cases ha
  | act _ hstep =>
    cases hstep with
    | receive hrec => simp [HandOff.receive, h.queue] at hrec
    | _ => cases ha

theorem not_isOfSession_of_ended (h : s.feed.course.session.isEnded = true)
    (ha : a.isOfSession = true) : s.next? a = none := by
  refine Option.eq_none_iff_forall_ne_some.mpr fun s' hnext => ?_
  cases stepping hnext with
  | dropPipeline | pass => cases ha
  | act _ hstep => exact Bool.noConfusion ((hstep.not_isOfSession h).symm.trans ha)

/-- Where the stream has ended, so has the session, unless others have ended the stream. -/
theorem ended_of_atEnd (ho : s.feed.Orderly) (h : s.feed.AtEnd) :
    s.feed.course.session.isEnded = true := by
  cases hgo : s.feed.course.session.isEnded with
  | true => rfl
  | false =>
    have haccepting := ho.isAccepting hgo
    simp [h.input] at haccepting

/-- A pipeline that is armed with a session without a limit on attempts, is started and runs from
then until its stream ends, and whose consumer reads on and never leaves the hand-off full for as
long as a producer would wait, gives it all the rows of the session and nothing else, and tells it
then that no more come. The input is told so once. -/
theorem replays_all (hs : HearsFirst R i .opened) (hr : outlet.KeptRunning R i)
    (hc : outlet.Consumed R) (hx : Hosted R) (hl : limits.maxPutAttempts = none)
    (ht : 0 < limits.putTimeout.nanos) : ∃ n, ∀ m, n ≤ m → (R.state m).Over rows := by
  have hgoing := hr.going i (Nat.le_refl i)
  by_cases hend : ∃ n, (R.state n).feed.AtEnd
  · obtain ⟨n, hn⟩ := hend
    obtain ⟨l, hend, hbefore⟩ := R.exists_first (P := fun s => s.feed.AtEnd) hn
    have hil := hr.lt_of_atEnd hend
    have hsteady := hc.steady_upTo hr hil hbefore
    have hreads : (R.upTo l).Just Action.isReceive :=
      R.just_upTo fun a => not_receive_of_atEnd hend
    have hd : Drained (R.upTo l) := ⟨fun n a he => hsteady.stays n (.act a) he, hreads⟩
    have ho := hd.orderly l
    rw [R.state_upTo (Nat.le_refl l)] at ho
    have hhosted : Hosted (R.upTo l) :=
      ⟨R.just_upTo fun a => not_isOfSession_of_ended (ended_of_atEnd ho hend),
        fun n he => hx.kept n (R.event_upTo.mp he).2⟩
    obtain ⟨n, hn⟩ := over_of_steady (hs.upTo hil) hsteady
      (by rwa [R.state_upTo (Nat.le_of_lt hil)]) hreads hhosted hl ht
    have hover := hn (max n l) (Nat.le_max_left n l)
    rw [R.state_upTo_of_le (Nat.le_max_right n l)] at hover
    exact ⟨l, fun m hlm => R.stable hover hlm
      fun j a _ he => (stepping (R.step j a he)).over (sound R j)⟩
  · exact over_of_steady hs (hc.steady hr fun n hn => hend ⟨n, hn⟩) hgoing hc.reads hx hl ht

end TimedFeed

/-- For every list of rows, every capacity and every configuration that can be run and has no limit
on attempts: a pipeline whose own producer has the rows, and another that is armed with a replay of
them, give their consumers the same: the rows, all of them and nothing else, and then the end of the
stream; and each input is told once that no more come. Both run from their start until their stream
ends, on an executor that has their tasks go on; their consumers read on until then and never leave
the hand-off full for as long as one second. The time limit of the replay may be shorter. -/
theorem replay_equals_native_run {config : Config} (hvalid : config.IsValid)
    (hlimit : config.replay.maxPutAttempts = none) {native other : Branch} {capacity i j : Nat}
    {id : SessionId} {N : Run Production.next? (.fresh native capacity)}
    {R : Run TimedFeed.next? (.armed other capacity id native.nativeRows config.limits)}
    (hn : Production.Starts N i) (hnr : Production.outlet.KeptRunning N i)
    (hnc : Production.outlet.Consumed N) (hnx : N.Just Production.Action.isOfProducer)
    (hr : TimedFeed.HearsFirst R j .opened) (hrr : TimedFeed.outlet.KeptRunning R j)
    (hrc : TimedFeed.outlet.Consumed R) (hrx : TimedFeed.Hosted R) :
    ∃ l, ∀ m, l ≤ m →
      ((N.state m).received = native.nativeRows ∧ (N.state m).AtEnd ∧
        (N.state m).finishedCalls = 1) ∧
      (R.state m).feed.received = native.nativeRows ∧ (R.state m).feed.AtEnd ∧
        (R.state m).feed.course.finishedCalls = 1 := by
  obtain ⟨k, hk⟩ := Production.emits_all hn hnr hnc hnx
  have hunlimited : config.limits.maxPutAttempts = none := by simp [Config.limits, hlimit]
  obtain ⟨l, hl⟩ := TimedFeed.replays_all hr hrr hrc hrx hunlimited hvalid.putTimeout_pos
  refine ⟨max k l, fun m hm => ?_⟩
  have hemitted := hk m (by omega)
  have hreplayed := hl m (by omega)
  exact ⟨⟨hemitted.received, hemitted.atEnd, hemitted.finishedCalls⟩, hreplayed.received,
    hreplayed.atEnd, hreplayed.finishedCalls⟩

/-! A pair of runs. There is room for one row, and the consumers take the first after twenty
milliseconds: the producer waits with the second, and the session, whose time limit is five, is
refused once and tries again. -/

namespace SlowConsumer

def config : Config := { Config.default with replay := ⟨1, 5, none⟩ }

def native : Branch := .fresh "service" ["scan"] (countRows 2)

def emitted : Run Production.next? (.fresh native 1) :=
  .ofActions _ _
    [.start, .enter, .offer, .accept, .enter, .offer, .pass 20000000, .receive, .review, .accept,
      .finish, .receive] (by decide)

def replayed :
    Run TimedFeed.next?
      (.armed (.fresh "service" ["scan"] (countRows 9)) 1 (.numbered 0) native.nativeRows
        config.limits) :=
  .ofActions _ _
    [.act (.begin 0), .act .start, .act (.look 0), .act .next, .act .enter, .act (.offer 0),
      .act .accept, .act .next, .act .enter, .act (.offer 0), .pass 5000000, .act (.review 5000000),
      .act .refuse, .act .enter, .act (.offer 5000000), .pass 20000000, .act .receive,
      .act (.review 20000000), .act .accept, .act .next, .act .receive] (by decide)

variable {n : Nat}

theorem emitted_rests (hn : 12 ≤ n) : emitted.state n = emitted.state 12 :=
  Run.state_of_length_le hn

theorem replayed_rests (hn : 21 ≤ n) : replayed.state n = replayed.state 21 :=
  Run.state_of_length_le hn

theorem valid : config.IsValid := by decide +kernel

theorem emitted_starts : Production.Starts emitted 0 :=
  ⟨rfl, fun j hj => absurd hj (Nat.not_lt_zero j)⟩

theorem emitted_kept : Production.outlet.KeptRunning emitted 0 where
  going m hm h := by
    obtain rfl := Nat.le_zero.mp hm
    cases h.input
  running n hn _ := by
    by_cases hrest : 12 ≤ n
    · rw [emitted_rests hrest]
      rfl
    · interval_cases n <;> rfl

theorem emitted_consumed : Production.outlet.Consumed emitted where
  stays n a _ he := by
    have hmem := Run.mem_drop_of_event (Nat.zero_le n) he
    simp only [List.drop_zero, List.mem_cons, List.not_mem_nil, or_false] at hmem
    rcases hmem with rfl | rfl | rfl | rfl | rfl | rfl | rfl | rfl | rfl | rfl | rfl | rfl <;> rfl
  reads := by
    refine Run.just_of_disabled _ (m := 12) fun n hn a ha => ?_
    rw [emitted_rests hn]
    cases a with
    | receive => rfl
    | _ => cases ha
  brisk n time _ := by
    have hnow : (emitted.state n).now < producerTimeout.nanos := by
      by_cases hrest : 12 ≤ n
      · rw [emitted_rests hrest]
        decide
      · interval_cases n <;> decide
    exact Nat.lt_of_lt_of_le hnow (Nat.le_add_left ..)

theorem emitted_turns : emitted.Just Production.Action.isOfProducer := by
  refine Run.just_of_disabled _ (m := 12) fun n hn a ha => ?_
  rw [emitted_rests hn]
  refine Option.eq_none_iff_forall_ne_some.mpr fun p hp => ?_
  exact Bool.noConfusion (((Production.stepping hp).not_isOfProducer rfl).symm.trans ha)

theorem replayed_event {a : TimedFeed.Action} (he : replayed.event n = some a) :
    a ∈ [.act (.begin 0), .act .start, .act (.look 0), .act .next, .act .enter, .act (.offer 0),
      .act .accept, .act .next, .act .enter, .act (.offer 0), .pass 5000000, .act (.review 5000000),
      .act .refuse, .act .enter, .act (.offer 5000000), .pass 20000000, .act .receive,
      .act (.review 20000000), .act .accept, .act .next, .act .receive] :=
  Run.mem_drop_of_event (Nat.zero_le n) he

theorem replayed_starts : TimedFeed.HearsFirst replayed 1 .opened := by
  refine ⟨⟨.act .start, rfl, rfl⟩, fun j hj a he => ?_⟩
  obtain rfl := Nat.lt_one_iff.mp hj
  cases he
  rfl

theorem replayed_kept : TimedFeed.outlet.KeptRunning replayed 1 where
  going m hm h := by
    interval_cases m <;> cases h.input
  running n hn _ := by
    by_cases hrest : 21 ≤ n
    · rw [replayed_rests hrest]
      rfl
    · interval_cases n <;> rfl

theorem replayed_consumed : TimedFeed.outlet.Consumed replayed where
  stays n a _ he := by
    have hmem := replayed_event he
    cases a with
    | act a =>
      cases a with
      | finishInput | dropOutput => simp at hmem
      | _ => rfl
    | _ => rfl
  reads := by
    refine Run.just_of_disabled _ (m := 21) fun n hn a ha => ?_
    rw [replayed_rests hn]
    cases a with
    | act a =>
      cases a with
      | receive => rfl
      | _ => cases ha
    | _ => cases ha
  brisk n time _ := by
    have hnow : (replayed.state n).now < producerTimeout.nanos := by
      by_cases hrest : 21 ≤ n
      · rw [replayed_rests hrest]
        decide
      · interval_cases n <;> decide
    exact Nat.lt_of_lt_of_le hnow (Nat.le_add_left ..)

theorem replayed_hosted : TimedFeed.Hosted replayed where
  turns := by
    refine Run.just_of_disabled _ (m := 21) fun n hn a ha => ?_
    rw [replayed_rests hn]
    exact TimedFeed.not_isOfSession_of_ended rfl ha
  kept n he := by simpa using replayed_event he

end SlowConsumer

theorem replay_equals_native_run_sample :
    (SlowConsumer.emitted.state 6).attempt = .waiting 1000000000 ∧
    (SlowConsumer.replayed.state 13).stage = .offering ⟨(countRows 2).drop 1, 1, 1⟩ ∧
    ∃ l, ∀ m, l ≤ m →
      (SlowConsumer.emitted.state m).received = countRows 2 ∧
        (SlowConsumer.replayed.state m).feed.received = countRows 2 ∧
        (SlowConsumer.replayed.state m).feed.AtEnd := by
  obtain ⟨l, hl⟩ := replay_equals_native_run SlowConsumer.valid rfl SlowConsumer.emitted_starts
    SlowConsumer.emitted_kept SlowConsumer.emitted_consumed SlowConsumer.emitted_turns
    SlowConsumer.replayed_starts SlowConsumer.replayed_kept SlowConsumer.replayed_consumed
    SlowConsumer.replayed_hosted
  refine ⟨rfl, rfl, l, fun m hm => ?_⟩
  obtain ⟨⟨hemitted, -⟩, hreplayed, hend, -⟩ := hl m hm
  exact ⟨hemitted, hreplayed, hend⟩

end RowReplay
