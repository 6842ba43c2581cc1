import RowReplay.Proofs.Pipeline.HandOff
import RowReplay.Proofs.Replay.Following

/-!
How long a session without a limit on attempts tries again. A row that an input refuses is offered
again as long as its refusals can be counted; the refusal that has no number ends the session
without a result. A pipeline that runs comes to this if its consumer stays away long enough.
-/
namespace RowReplay

namespace Course

variable {c c' : Course} {a : Action} {v : Delivery} {deeds : List Deed} {k : Nat}

@[simp] def Action.isRefusal : Action → Bool
  | .refuse _ => true
  | _ => false

/-- The first row of a delivery has been refused `k` times in a row. If that can be counted, the row
is still on offer, and the session has done nothing else; if not, it is lost, and has told its
input. -/
def Insisting (c : Course) (v : Delivery) (deeds : List Deed) (k : Nat) : Prop :=
  k < attemptBound ∧ c.session.stage = .offering { v with attempts := k } ∧ c.deeds = deeds ∨
    k = attemptBound ∧ c.session.stage = .ended (.error .taskLost) ∧
      c.deeds = deeds ++ [.effect .finishInput, .effect (.resolve (.error .taskLost))]

/-- Every refusal by an input that runs is counted. -/
theorem Insisting.step (h : c.Insisting v deeds k) (hstep : c.Moving a c')
    (hl : c.session.limits.maxPutAttempts = none) (haccept : a ≠ .accept)
    (hstop : a ≠ .refuse false) (hlose : a ≠ .lose) :
    c'.Insisting v deeds (k + if a.isRefusal then 1 else 0) := by
  rcases h with ⟨hk, hst, hd⟩ | ⟨hk, hst, hd⟩
  · cases hstep with
    | openGate | abandonGate => exact Or.inl ⟨hk, hst, hd⟩
    | begin hs | ready hs | abandoned hs | timedOut hs | offer hs | halt hs =>
      rw [hst] at hs
      cases hs
    | accept => exact (haccept rfl).elim
    | overflow hs hbound =>
      obtain rfl := SessionStage.offering.inj (hst.symm.trans hs)
      refine Or.inr ⟨hbound, rfl, ?_⟩
      rw [atStage_deeds_ended, hd, if_pos (by simp [Session.hasBegun, hst])]
    | stopped => exact (hstop rfl).elim
    | exhausted _ _ hlimit => simp [hl] at hlimit
    | again hs hbound =>
      obtain rfl := SessionStage.offering.inj (hst.symm.trans hs)
      refine Or.inl ⟨Nat.lt_of_le_of_ne hk hbound, rfl, ?_⟩
      rw [atStage_deeds_going (by simp), hd]
    | lose => exact (hlose rfl).elim
  · have hno : a.isRefusal = false := by
      cases hstep with
      | overflow hs | stopped hs | exhausted hs | again hs =>
        rw [hst] at hs
        cases hs
      | _ => rfl
    obtain ⟨hst', hd'⟩ := ended_step hst hstep
    rw [hno]
    exact Or.inr ⟨hk, hst', hd'.trans hd⟩

/-! Whole runs. -/

variable {id : SessionId} {rows rest : RowSequence} {limits : ReplayLimits} {row : Row} {m n : Nat}

theorem limits_eq (R : Run next? (armed id rows limits)) (n : Nat) :
    (R.state n).session.limits = limits :=
  R.invariant (P := fun c => c.session.limits = limits) rfl
    (fun _ _ _ h hstep => (moving hstep).same.limits.trans h) n

/-- The rows before the one on offer have been handed over, and nothing else was done. -/
theorem deeds_of_offering (R : Run next? (armed id rows limits))
    (hst : (R.state m).session.stage = .offering v) :
    (R.state m).deeds = (rows.take v.delivered).map .handed := by
  obtain ⟨begun, ht, -⟩ := told R m
  simp only [Told, hst] at ht
  rw [ht.2.deeds, handed, rows_eq R m]

theorem insisting (R : Run next? (armed id rows limits)) (hl : limits.maxPutAttempts = none)
    (h : (R.state m).Insisting v deeds 0) (hmn : m ≤ n)
    (hrefused : ∀ i, m ≤ i → i < n →
      R.event i ≠ some .accept ∧ R.event i ≠ some (.refuse false) ∧ R.event i ≠ some .lose) :
    (R.state n).Insisting v deeds (R.count Action.isRefusal m n) := by
  induction hmn with
  | refl => rwa [R.count_self]
  | @step n hmn ih =>
    have hprev := ih fun i hmi hin => hrefused i hmi (Nat.lt_succ_of_lt hin)
    obtain ⟨haccept, hstop, hlose⟩ := hrefused n hmn (Nat.lt_succ_self n)
    rw [Nat.succ_eq_add_one, R.count_succ _ hmn]
    cases he : R.event n with
    | none =>
      rw [R.pad n he]
      exact hprev
    | some a =>
      simp only [he, ne_eq, Option.some.injEq] at haccept hstop hlose
      have hunlimited : (R.state n).session.limits.maxPutAttempts = none := by
        rw [limits_eq R n, hl]
      exact hprev.step (moving (R.step n a he)) hunlimited haccept hstop hlose

/-- However often an input that runs refuses a row that has come on offer: without a limit on
attempts the same row is on offer after every refusal that 32 bits can count, and only the rows
before it have been handed over. The refusal after these ends the session for good, without a
result: its task is lost, and its input has been told that no more rows come. -/
theorem offered_again_while_counted (R : Run next? (armed id rows limits))
    (hl : limits.maxPutAttempts = none)
    (hst : (R.state m).session.stage = .offering ⟨row :: rest, k, 0⟩) (hmn : m ≤ n)
    (hrefused : ∀ i, m ≤ i → i < n →
      R.event i ≠ some .accept ∧ R.event i ≠ some (.refuse false) ∧ R.event i ≠ some .lose) :
    R.count Action.isRefusal m n ≤ attemptBound ∧
    (R.count Action.isRefusal m n < attemptBound →
      (R.state n).session.stage = .offering ⟨row :: rest, k, R.count Action.isRefusal m n⟩ ∧
      (R.state n).deeds = (rows.take k).map .handed) ∧
    (R.count Action.isRefusal m n = attemptBound → ∀ l, n ≤ l →
      (R.state l).session.stage = .ended (.error .taskLost) ∧
      (R.state l).deeds = (rows.take k).map .handed ++
        [.effect .finishInput, .effect (.resolve (.error .taskLost))]) := by
  have hfirst : (R.state m).Insisting ⟨row :: rest, k, 0⟩ ((rows.take k).map .handed) 0 :=
    Or.inl ⟨by decide, hst, deeds_of_offering R hst⟩
  rcases insisting R hl hfirst hmn hrefused with ⟨hless, hst', hd⟩ | ⟨hbound, hst', hd⟩
  · exact ⟨Nat.le_of_lt hless, fun _ => ⟨hst', hd⟩, fun heq => absurd heq (Nat.ne_of_lt hless)⟩
  · refine ⟨Nat.le_of_eq hbound, fun hless => absurd hbound (Nat.ne_of_lt hless), ?_⟩
    intro _ l hnl
    obtain ⟨hend, hd'⟩ := ended_stays R hst' hnl
    exact ⟨hend, hd'.trans hd⟩

/-- The first row is refused twice, and the listener at the gate goes in between. -/
def refusedTwice : Run next? (armed (.numbered 0) (countRows 3) ⟨⟨5⟩, ⟨5⟩, none⟩) :=
  .ofActions _ _
    [.begin 0, .openGate, .look 1, .next true, .refuse true, .abandonGate, .refuse true] (by decide)

theorem offered_again_while_counted_sample :
    (refusedTwice.state 4).session.stage = .offering ⟨countRows 3, 0, 0⟩ ∧
      (∀ i, 4 ≤ i → i < 7 → refusedTwice.event i ≠ some .accept ∧
        refusedTwice.event i ≠ some (.refuse false) ∧ refusedTwice.event i ≠ some .lose) ∧
      refusedTwice.count Action.isRefusal 4 7 = 2 ∧
      (refusedTwice.state 7).session.stage = .offering ⟨countRows 3, 0, 2⟩ := by
  have hrefused : ∀ i, 4 ≤ i → i < 7 → refusedTwice.event i ≠ some .accept ∧
      refusedTwice.event i ≠ some (.refuse false) ∧ refusedTwice.event i ≠ some .lose := by
    intro i hi _
    refine ⟨fun he => ?_, fun he => ?_, fun he => ?_⟩ <;>
      simpa using Run.mem_drop_of_event hi he
  have hall := offered_again_while_counted refusedTwice rfl rfl (by decide) hrefused
  exact ⟨rfl, hrefused, rfl, (hall.2.1 (by decide)).1⟩

end Course

/-! A pipeline whose consumer stays away. -/

namespace Feed

variable {f f' : Feed} {a : Action} {v : Delivery}

/-- What the session does when its row is refused. -/
def Action.isOfRefusal : Action → Bool
  | .enter | .offer _ | .review _ | .refuse => true
  | _ => false

/-- The session is about to try again to put a row into a hand-off that is full. -/
structure Blocked (f : Feed) (v : Delivery) : Prop where
  running : f.pipeline.running = true
  isAccepting : f.isAccepting = true
  isOpen : f.handOff.isOpen = true
  full : f.handOff.free = 0
  unclaimed : f.handOff.Unclaimed
  stage : f.course.session.stage = .offering v
  remaining : v.remaining ≠ []
  attempt : f.attempt = .none
  finishedCalls : f.course.finishedCalls = 0
  unlimited : f.course.session.limits.maxPutAttempts = none

/-- How long an attempt waits. -/
def patience (f : Feed) : Nat := f.course.session.limits.putTimeout.nanos

/-- An attempt that begins now and waits for its whole time, up to its answer. -/
def attemptInVain (f : Feed) : List Action :=
  [.enter, .offer f.course.clock, .review (f.course.clock + f.patience)]

/-- The attempt's time is over. -/
def turnedDown (f : Feed) : Feed :=
  { f with course.clock := f.course.clock + f.patience, attempt := .answered false }

theorem Blocked.foldlM_attemptInVain (h : f.Blocked v) :
    f.attemptInVain.foldlM next? f = some f.turnedDown := by
  obtain ⟨row, rest, hr⟩ := List.exists_cons_of_ne_nil h.remaining
  have hrow : f.course.session.onOffer? = some row := by simp [Session.onOffer?, h.stage, hr]
  have hoffer := HandOff.offer_of_full (t := ()) (a := row) h.unclaimed h.isOpen h.full
  have hreview := HandOff.review_of_full (t := ()) (a := row) h.unclaimed h.isOpen
  simp [attemptInVain, turnedDown, next?, h.attempt, hrow, h.running, h.isAccepting, hoffer,
    hearOffer, hreview, patience]

/-- The session hears of the refusal. Then it is where it was, or lost. -/
theorem Blocked.next?_turnedDown (h : f.Blocked v) :
    ∃ g, f.turnedDown.next? .refuse = some g ∧ g.course.clock = f.course.clock + f.patience ∧
      (v.attempts + 1 ≠ attemptBound ∧ g.Blocked { v with attempts := v.attempts + 1 } ∧
          g.patience = f.patience ∨
        v.attempts + 1 = attemptBound ∧ g.course.session.stage = .ended (.error .taskLost)) := by
  obtain ⟨c, hc⟩ : ∃ c, f.turnedDown.course.next? (.refuse true) = some c := by
    simp [turnedDown, Course.next?, h.stage]
  have hnext : f.turnedDown.next? .refuse =
      some ({ f.turnedDown with attempt := .none }.follow c) := by
    have hrun : f.turnedDown.pipeline.running = true := h.running
    simp only [next?, move, turnedDown] at hc hrun ⊢
    rw [hrun, hc]
    rfl
  refine ⟨_, hnext, ?_⟩
  cases Course.moving hc with
  | overflow hs hbound =>
    obtain rfl := SessionStage.offering.inj (h.stage.symm.trans hs)
    exact ⟨rfl, Or.inr ⟨hbound, rfl⟩⟩
  | exhausted _ _ hlimit => simp [turnedDown, h.unlimited] at hlimit
  | again hs hbound =>
    obtain rfl := SessionStage.offering.inj (h.stage.symm.trans hs)
    have hcalls : (f.turnedDown.course.atStage
        (.offering { v with attempts := v.attempts + 1 })).finishedCalls = 0 := by
      rw [Course.finishedCalls, Course.atStage_deeds_going (by simp)]
      exact h.finishedCalls
    refine ⟨rfl, Or.inl ⟨hbound, ⟨h.running, ?_, h.isOpen, h.full, h.unclaimed, rfl, h.remaining,
      rfl, hcalls, h.unlimited⟩, rfl⟩⟩
    have haccepting : f.turnedDown.isAccepting = true := h.isAccepting
    simp [follow, hcalls, haccepting]

/-- A session without a limit on attempts is lost in front of a hand-off that stays full: nothing
but its own attempts happens, and each of them takes its whole time. -/
theorem Blocked.lost (h : f.Blocked v) (hv : v.attempts < attemptBound) :
    ∃ (actions : List Action) (g : Feed), actions.foldlM next? f = some g ∧
      (∀ a ∈ actions, a.isOfRefusal = true) ∧ g.course.session.stage = .ended (.error .taskLost) ∧
      g.course.clock = f.course.clock + (attemptBound - v.attempts) * f.patience := by
  -- The induction is on the refusals that can still be counted.
  obtain ⟨k, hk⟩ : ∃ k, attemptBound = v.attempts + k + 1 := Nat.exists_eq_add_of_lt hv
  induction k generalizing f v with
  | zero =>
    obtain ⟨g, hg, hclock, ⟨hmore, -⟩ | ⟨-, hlost⟩⟩ := h.next?_turnedDown
    · omega
    · refine ⟨f.attemptInVain ++ [.refuse], g, ?_, ?_, hlost, ?_⟩
      · simp [List.foldlM_append, h.foldlM_attemptInVain, hg]
      · simp [attemptInVain, Action.isOfRefusal]
      · rw [hclock, hk]
        simp
  | succ k ih =>
    obtain ⟨g, hg, hclock, ⟨-, hb, hp⟩ | ⟨hlast, -⟩⟩ := h.next?_turnedDown
    · have hnext : v.attempts + 1 < attemptBound := by omega
      have hleft : attemptBound - v.attempts = (attemptBound - (v.attempts + 1)) + 1 := by omega
      obtain ⟨actions, last, hlast, hall, hlost, hend⟩ := ih hb hnext (by dsimp only; omega)
      refine ⟨f.attemptInVain ++ .refuse :: actions, last, ?_, ?_, hlost, ?_⟩
      · simp [List.foldlM_append, h.foldlM_attemptInVain, hg, hlast]
      · simpa [attemptInVain, Action.isOfRefusal] using hall
      · rw [hend, hclock, hp, hleft, Nat.add_one_mul, Nat.add_assoc, Nat.add_comm f.patience]
    · omega

theorem Stepping.pipeline_of_refusal (h : f.Stepping a f') (ha : a.isOfRefusal = true) :
    f'.pipeline = f.pipeline := by
  cases h with
  | enter | shutOut | refuse => rfl
  | offer | review => exact pipeline_hearOffer ..
  | _ => cases ha

/-- A pipeline with room for one row, and a session that may try to put a row for a millisecond, as
often as it likes. -/
def unread : Feed :=
  armed (.fresh "service" ["scan"] []) 1 (.numbered 0) (countRows 2)
    ⟨.ofSeconds 30, .ofMillis 1, none⟩

/-- The first row goes into the hand-off, and the second one is on offer. -/
def intoFull : List Action :=
  [.start, .begin 0, .look 0, .next, .enter, .offer 0, .accept, .next]

theorem blocked_intoFull : ∃ f, intoFull.foldlM next? unread = some f ∧
    f.Blocked ⟨(countRows 2).drop 1, 1, 0⟩ :=
  ⟨_, rfl, ⟨rfl, rfl, rfl, rfl, ⟨rfl, rfl⟩, rfl, by decide, rfl, rfl, rfl⟩⟩

/-- A session can be lost while its pipeline runs and its row has only been refused. -/
theorem lost_while_running :
    ¬ ∀ (R : Run next? unread) (m n : Nat) (v : Delivery),
      (R.state m).course.session.stage = .offering v → m ≤ n →
      (∀ i, m ≤ i → i < n → (R.state i).pipeline.running = true ∧ R.event i ≠ some .accept ∧
        R.event i ≠ some .lose) →
      ∃ attempts, (R.state n).course.session.stage = .offering { v with attempts } := by
  intro h
  obtain ⟨f, hf, hblocked⟩ := blocked_intoFull
  obtain ⟨actions, g, hg, hall, hlost, -⟩ := hblocked.lost (by decide)
  obtain ⟨R, m, n, hmn, hm, hn, hevents⟩ := Run.exists_through hf hg
  have hrefusals : ∀ i a, m ≤ i → R.event i = some a → a.isOfRefusal = true :=
    fun i a hmi he => hall a (hevents i a hmi he)
  have hrun : ∀ i, m ≤ i → (R.state i).pipeline.running = true := by
    intro i hmi
    refine R.stable (P := fun f => f.pipeline.running = true) ?_ hmi ?_
    · rw [hm]
      exact hblocked.running
    · intro j a hmj he hr
      rwa [(stepping (R.step j a he)).pipeline_of_refusal (hrefusals j a hmj he)]
  have hothers : ∀ i a, m ≤ i → a.isOfRefusal = false → R.event i ≠ some a := by
    intro i a hmi ha he
    simp [hrefusals i a hmi he] at ha
  obtain ⟨attempts, hoffering⟩ := h R m n _ (by rw [hm, hblocked.stage]) hmn fun i hmi _ =>
    ⟨hrun i hmi, hothers i _ hmi rfl, hothers i _ hmi rfl⟩
  rw [hn, hlost] at hoffering
  cases hoffering

end Feed

end RowReplay
