import RowReplay.Proofs.Pipeline.HandOff
import RowReplay.Proofs.Replay.Following

/-!
What the consumer of a pipeline gets from a session that feeds it: the first rows of the sequence, in
order, and at the end of its stream just as many as the session reports.
-/
namespace RowReplay.Feed

variable {f f' : Feed} {a : Action}

/-- Nothing is queued, and nothing can come any more: the consumer that reads is told so. -/
structure AtEnd (f : Feed) : Prop where
  queue : f.handOff.queue = []
  input : f.isAccepting = false
  attempt : ∀ deadline, f.attempt ≠ .waiting deadline

/-! What goes through the hand-off in one step. -/

theorem received_hearOffer (f : Feed) (row : Row) (deadline : Nat) (handOff : HandOff Unit Row)
    (offer : Offer) : (f.hearOffer row deadline handOff offer).received = f.received := by
  cases offer <;> rfl

theorem handOff_hearOffer (f : Feed) (row : Row) (deadline : Nat) (handOff : HandOff Unit Row)
    (offer : Offer) : (f.hearOffer row deadline handOff offer).handOff = handOff := by
  cases offer <;> rfl

theorem sent_hearOffer (f : Feed) (row : Row) (deadline : Nat) (handOff : HandOff Unit Row)
    (offer : Offer) :
    (f.hearOffer row deadline handOff offer).sent =
      f.sent ++ if offer = .accepted then [row] else [] := by
  cases offer <;> simp [hearOffer]

theorem received_giveUp (f : Feed) : f.giveUp.received = f.received := by
  unfold giveUp
  split <;> rfl

theorem passes_giveUp (f : Feed) : f.handOff.Passes f.giveUp.handOff [] [] := by
  unfold giveUp
  split
  · exact HandOff.passes_withdraw ..
  · exact .refl _

/-- Rows go in and out of the hand-off; those that go in are sent, and those that go out received. -/
def Flows (f f' : Feed) : Prop :=
  ∃ ins outs, f.handOff.Passes f'.handOff ins outs ∧ f'.sent = f.sent ++ ins ∧
    f'.received = f.received ++ outs ∧ (ins = [] ∨ f.handOff.isOpen = true)

theorem Flows.of_rest (hh : f.handOff.Passes f'.handOff [] []) (hs : f'.sent = f.sent)
    (hr : f'.received = f.received) : f.Flows f' :=
  ⟨[], [], hh, by simp [hs], by simp [hr], Or.inl rfl⟩

theorem flows_hearOffer {now deadline : Nat} {row : Row} {handOff : HandOff Unit Row} {offer : Offer}
    (hp : f.handOff.Passes handOff (if offer = .accepted then [row] else []) [])
    (ho : offer = .accepted → f.handOff.isOpen = true) :
    f.Flows ({ f with course.clock := now }.hearOffer row deadline handOff offer) := by
  refine ⟨_, [], ?_, sent_hearOffer .., ?_, ?_⟩
  · rw [handOff_hearOffer]
    exact hp
  · rw [received_hearOffer, List.append_nil]
  · by_cases h : offer = .accepted
    · exact Or.inr (ho h)
    · exact Or.inl (if_neg h)

/-- Every step lets rows through in order, unless the consumer goes. -/
theorem Stepping.flows (h : f.Stepping a f') : f.Flows f' ∨ f' = { f with handOff := f.handOff.close.1 } := by
  cases h with
  | dropOutput => exact Or.inr rfl
  | receive hr =>
    refine Or.inl ⟨[], _, HandOff.passes_receive hr, ?_, rfl, Or.inl rfl⟩
    exact (List.append_nil _).symm
  | offer _ _ _ _ ho =>
    have hp := HandOff.passes_offer ho
    exact Or.inl (flows_hearOffer hp.1 hp.2.1)
  | review _ _ _ ho =>
    have hp := HandOff.passes_review ho
    exact Or.inl (flows_hearOffer hp.1 hp.2.1)
  | lose => exact Or.inl (.of_rest (passes_giveUp f) (sent_giveUp f) (received_giveUp f))
  | _ => exact Or.inl (.of_rest (.refl _) rfl rfl)

/-! What holds throughout. -/

/-- Between the session and its consumer no row gets lost. -/
structure Conserved (capacity : Nat) (f : Feed) : Prop where
  capacity : f.handOff.capacity = capacity
  fits : f.handOff.Fits
  /-- What was sent has been received or is queued. -/
  present : f.handOff.isOpen = true → f.received ++ f.handOff.queue = f.sent
  gone : f.handOff.isOpen = false → f.handOff.queue = []
  received : f.received <+: f.sent

theorem Conserved.flows {capacity : Nat} (h : f.Conserved capacity) (hf : f.Flows f') :
    f'.Conserved capacity := by
  obtain ⟨ins, outs, hp, hs, hr, hopen⟩ := hf
  have hqueue := hp.queue
  constructor
  · rw [hp.capacity, h.capacity]
  · exact hp.fits h.fits
  · intro ho
    rw [hp.isOpen] at ho
    calc f'.received ++ f'.handOff.queue
        = f.received ++ (outs ++ f'.handOff.queue) := by rw [hr, List.append_assoc]
      _ = (f.received ++ f.handOff.queue) ++ ins := by rw [← hqueue, List.append_assoc]
      _ = f'.sent := by rw [h.present ho, hs]
  · intro ho
    rw [hp.isOpen] at ho
    obtain rfl : ins = [] := hopen.resolve_right (by simp [ho])
    rw [h.gone ho, List.nil_append] at hqueue
    exact (List.append_eq_nil_iff.mp hqueue.symm).2
  · cases ho : f.handOff.isOpen with
    | false =>
      obtain rfl : ins = [] := hopen.resolve_right (by simp [ho])
      rw [h.gone ho, List.nil_append] at hqueue
      obtain rfl := (List.append_eq_nil_iff.mp hqueue.symm).1
      rw [hs, hr, List.append_nil, List.append_nil]
      exact h.received
    | true =>
      refine ⟨f'.handOff.queue, ?_⟩
      rw [hr, hs, List.append_assoc, ← hqueue, ← List.append_assoc, h.present ho]

theorem Conserved.step {capacity : Nat} (h : f.Conserved capacity) (hstep : f.Stepping a f') :
    f'.Conserved capacity := by
  rcases hstep.flows with hf | rfl
  · exact h.flows hf
  · exact ⟨h.capacity, HandOff.fits_close, nofun, fun _ => rfl, h.received⟩

/-- The facts about a feed, its session and its pipeline that no step breaks. -/
structure Sound (branch : Branch) (capacity : Nat) (session : Session) (f : Feed) : Prop where
  same : session.Same f.course.session
  told : ∃ begun, f.course.Told begun
  counted : f.Counted
  idle : f.Idle
  attending : f.Attending
  conserved : f.Conserved capacity
  isReplaced : f.pipeline.IsReplaced
  started : f.pipeline.branch.started = branch.started

theorem sound_armed (branch : Branch) (capacity : Nat) (id : SessionId) (rows : RowSequence)
    (limits : ReplayLimits) :
    (armed branch capacity id rows limits).Sound branch (max capacity 1) (.armed id rows limits) where
  same := ⟨rfl, rfl, rfl⟩
  told := ⟨false, rfl, rfl⟩
  counted := ⟨rfl, rfl⟩
  idle _ := rfl
  attending _ := rfl
  conserved := ⟨rfl, HandOff.fits_fresh capacity, fun _ => rfl, fun _ => rfl, List.nil_prefix⟩
  isReplaced := (Pipeline.unstarted_fresh branch).isReplaced_arm id
  started := rfl

theorem Sound.step {branch : Branch} {capacity : Nat} {session : Session}
    (h : f.Sound branch capacity session) (hstep : f.Stepping a f') :
    f'.Sound branch capacity session := by
  have hsame := hstep.same
  constructor
  · exact ⟨hsame.id.trans h.same.id, hsame.rows.trans h.same.rows,
      hsame.limits.trans h.same.limits⟩
  · exact hstep.told h.told
  · exact h.counted.step hstep
  · exact hstep.idle h.idle
  · exact hstep.attending h.attending
  · exact h.conserved.step hstep
  · exact hstep.isReplaced h.isReplaced
  · rcases hstep.pipeline with hp | ⟨operation, hp⟩
    · rw [hp, h.started]
    · rw [hp, (h.isReplaced.producer_operate operation).2.1, h.started]

theorem Attempt.taken_of_underWay {attempt : Attempt} (h : attempt.isUnderWay = true) :
    attempt.taken = 0 := by
  cases attempt <;> simp_all [Attempt.isUnderWay, Attempt.taken]

/-- The row that is sent is the one after those that were sent before. -/
theorem Stepping.sent_in_order {begun : Bool} {rows : RowSequence} (h : f.Stepping a f')
    (hc : f.Counted) (ht : f.course.Told begun) (hrows : f.course.session.rows = rows)
    (hs : f.sent <+: rows) : f'.sent <+: rows := by
  rcases h.sent with hsame | ⟨hu, -, row, hrow, hsent⟩
  · rwa [hsame]
  · obtain ⟨d, hstage, hhead⟩ := Session.onOffer?_eq_some hrow
    simp only [Counted, hstage, Attempt.taken_of_underWay hu, Nat.add_zero] at hc
    simp only [Course.Told, hstage] at ht
    have hnext : rows[f.sent.length]? = some row := by
      rw [hc, ← List.head?_drop, ← hrows, ← ht.2.remaining, hhead]
    have htake : f.sent ++ [row] = rows.take (f.sent.length + 1) := by
      rw [List.take_add_one, hnext, ← List.prefix_iff_eq_take.mp hs]
      rfl
    rw [hsent, htake]
    exact List.take_prefix ..

/-! The end of the session. -/

/-- The session has told its input that no more rows come. -/
theorem not_accepting_of_closed {result : Except ReplayError ReplayOutcome} (ha : f.Attending)
    (hc : f.course.Closed result) : f.isAccepting = false := by
  cases h : f.isAccepting with
  | false => rfl
  | true =>
    have := ha h
    rw [hc.finishedCalls] at this
    cases this

/-- Whoever ends other than by being lost has told its input. -/
theorem closed_of_ended {begun : Bool} {result : Except ReplayError ReplayOutcome}
    (ht : f.course.Told begun) (he : f.course.session.stage = .ended result)
    (hr : result ≠ .error .taskLost) : f.course.Closed result := by
  simp only [Course.Told, he] at ht
  rcases ht with ⟨-, hc⟩ | ⟨-, hlost, -⟩
  · exact hc
  · exact (hr hlost).elim

/-- A consumer that reads gets all that is queued, and nobody else does anything by it. -/
theorem drain (f : Feed) :
    ∃ g, (List.replicate f.handOff.queue.length Action.receive).foldlM next? f = some g ∧
      g.handOff.queue = [] ∧ g.received = f.received ++ f.handOff.queue ∧
      g.isAccepting = f.isAccepting ∧ g.attempt = f.attempt := by
  generalize hq : f.handOff.queue = queue
  induction queue generalizing f with
  | nil => exact ⟨f, rfl, hq, (List.append_nil _).symm, rfl, rfl⟩
  | cons row rest ih =>
    obtain ⟨g, hg⟩ : ∃ g, g = { f with
        handOff := { f.handOff with queue := rest }.passRoom.1
        received := f.received ++ [row] } := ⟨_, rfl⟩
    have hstep : next? f .receive = some g := by
      simp only [next?, HandOff.receive_of_queue hq, hg]
    obtain ⟨last, hl, he, hr, hi, ha⟩ := ih g (by simp [hg])
    refine ⟨last, ?_, he, ?_, ?_, ?_⟩
    · rw [List.length_cons, List.replicate_succ, List.foldlM_cons, hstep]
      exact hl
    · rw [hr, hg, List.append_assoc]
      rfl
    · rw [hi, hg]
    · rw [ha, hg]

/-! Whole runs. -/

variable {branch : Branch} {capacity m n : Nat} {id : SessionId} {rows : RowSequence}
  {limits : ReplayLimits}

theorem sound (R : Run next? (armed branch capacity id rows limits)) (n : Nat) :
    (R.state n).Sound branch (max capacity 1) (.armed id rows limits) :=
  R.invariant (P := Sound branch (max capacity 1) (.armed id rows limits)) (sound_armed ..)
    (fun _ _ _ h hstep => h.step (stepping hstep)) n

theorem sent_in_order (R : Run next? (armed branch capacity id rows limits)) (n : Nat) :
    (R.state n).sent <+: rows := by
  induction n with
  | zero =>
    rw [R.initial]
    exact List.nil_prefix
  | succ n ih =>
    cases he : R.event n with
    | none => rwa [R.pad n he]
    | some a =>
      obtain ⟨begun, ht⟩ := (sound R n).told
      exact (stepping (R.step n a he)).sent_in_order (counted R n) ht (sound R n).same.rows ih

/-- Once the session has ended, nothing more is sent. -/
theorem sent_ended {result : Except ReplayError ReplayOutcome}
    (R : Run next? (armed branch capacity id rows limits))
    (h : (R.state n).course.session.stage = .ended result) (hnm : n ≤ m) :
    (R.state m).sent = (R.state n).sent := by
  refine R.stable (P := fun f => f.course.session.stage = .ended result ∧ f.Idle ∧
    f.sent = (R.state n).sent) ⟨h, (sound R n).idle, rfl⟩ hnm ?_ |>.2.2
  rintro i a - he ⟨hend, hidle, hs⟩
  have hstep := stepping (R.step i a he)
  refine ⟨(hstep.ended hend).1, hstep.idle hidle, ?_⟩
  rcases hstep.sent with hsame | ⟨hu, -⟩
  · rw [hsame, hs]
  · simp [hidle (by simp [hend]), Attempt.isUnderWay] at hu

/-- The consumer that is there when the session has reported gets the rows that are reported, and is
told then that no more come. -/
theorem consumed {outcome : ReplayOutcome} (R : Run next? (armed branch capacity id rows limits))
    (hend : (R.state n).course.session.stage = .ended (.ok outcome))
    (hopen : (R.state n).handOff.isOpen = true) :
    ∃ f, (List.replicate (R.state n).handOff.queue.length Action.receive).foldlM next? (R.state n) =
        some f ∧ f.AtEnd ∧ f.received = (R.state n).sent := by
  obtain ⟨f, hf, hq, hr, hi, ha⟩ := drain (R.state n)
  obtain ⟨begun, ht⟩ := (sound R n).told
  have hclosed := closed_of_ended ht hend nofun
  refine ⟨f, hf, ⟨hq, ?_, ?_⟩, ?_⟩
  · rw [hi]
    exact not_accepting_of_closed (sound R n).attending hclosed
  · intro deadline
    rw [ha, (sound R n).idle (by simp [hend])]
    exact nofun
  · rw [hr, (sound R n).conserved.present hopen]

/-- For any rows, capacity and limits, and whatever the pipeline's owner and consumer do: what the
consumer has received, and then what is queued for it, are the rows that the session has sent; these
are the first rows of the sequence, and the session counts them. No more is queued than there is room
for, and the pipeline's own producer emits nothing. When the session reports, it reports the number
of rows sent; and a consumer that reads on to the end of its stream has then received just these. -/
theorem delivered_prefix (R : Run next? (armed branch capacity id rows limits)) (n : Nat) :
    ((R.state n).handOff.isOpen = true →
      (R.state n).received ++ (R.state n).handOff.queue = rows.take (R.state n).sent.length) ∧
    (R.state n).received <+: rows ∧
    (R.state n).sent.length ≤ rows.length ∧ (R.state n).Counted ∧
    (R.state n).handOff.queue.length ≤ max capacity 1 ∧
    .emitNativeRows ∉ ((R.state n).pipeline.start).2 ∧
    ∀ outcome, (R.state n).course.session.stage = .ended (.ok outcome) →
      outcome.delivered = (R.state n).sent.length ∧ outcome.total = rows.length ∧
      ((R.state n).handOff.isOpen = true →
        ∃ f, (List.replicate (R.state n).handOff.queue.length Action.receive).foldlM next?
            (R.state n) = some f ∧ f.AtEnd ∧ f.received = rows.take outcome.delivered) ∧
      ∀ m, n ≤ m → (R.state m).handOff.isOpen = true → (R.state m).AtEnd →
        (R.state m).received = rows.take outcome.delivered := by
  obtain ⟨begun, ht⟩ := (sound R n).told
  have hsent := sent_in_order R n
  have htake := List.prefix_iff_eq_take.mp hsent
  have hc := (sound R n).conserved
  have hqueue := hc.fits.length_queue_le
  rw [hc.capacity] at hqueue
  refine ⟨?_, hc.received.trans hsent, hsent.length_le, counted R n, hqueue, only_sender R n, ?_⟩
  · intro hopen
    rw [hc.present hopen, ← htake]
  intro outcome hend
  have hcount := counted R n
  simp only [Counted, hend] at hcount
  refine ⟨hcount.symm, ?_, ?_, ?_⟩
  · rw [(reporting R n outcome hend).2, (sound R n).same.rows]
    rfl
  · intro hopen
    rw [← hcount, ← htake]
    exact consumed R hend hopen
  · intro m hnm hopen hlast
    have hpresent := (sound R m).conserved.present hopen
    rw [hlast.queue, List.append_nil, sent_ended R hend hnm] at hpresent
    rw [hpresent, ← hcount, ← htake]

/-- A hand-off of no capacity has room for one row. The second row is refused for lack of room, and
taken at its second offer; then the pipeline is stopped. -/
def stoppedAfterRetry :
    Run next? (armed (.fresh "service" ["scan"] (countRows 9)) 0 (.numbered 0) (countRows 3)
      ⟨⟨5⟩, ⟨5⟩, none⟩) :=
  .ofActions _ _
    [.start, .begin 0, .look 0, .next, .enter, .offer 0, .accept, .next, .enter, .offer 0, .review 5,
      .refuse, .enter, .offer 5, .receive, .review 6, .accept, .stop, .next, .receive] (by decide)

theorem delivered_prefix_sample :
    (stoppedAfterRetry.state 14).course.session.stage =
        .offering ⟨(countRows 3).drop 1, 1, 1⟩ ∧
      (stoppedAfterRetry.state 14).received ++ (stoppedAfterRetry.state 14).handOff.queue =
        (countRows 3).take 1 ∧
      (stoppedAfterRetry.state 19).course.session.stage = .ended (.ok ⟨.numbered 0, 2, 3⟩) ∧
      (stoppedAfterRetry.state 20).AtEnd ∧
      (stoppedAfterRetry.state 20).received = (countRows 3).take 2 := by
  have hretried := delivered_prefix stoppedAfterRetry 14
  have hended := delivered_prefix stoppedAfterRetry 19
  obtain ⟨-, -, -, hdrained⟩ := hended.2.2.2.2.2.2 ⟨.numbered 0, 2, 3⟩ rfl
  have hlast : (stoppedAfterRetry.state 20).AtEnd := ⟨rfl, rfl, nofun⟩
  exact ⟨rfl, hretried.1 rfl, rfl, hlast, hdrained 20 (by decide) rfl hlast⟩

end RowReplay.Feed
