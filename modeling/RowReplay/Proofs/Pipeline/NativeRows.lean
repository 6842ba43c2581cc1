import RowReplay.Proofs.Pipeline.HandOff
import RowReplay.Proofs.Pipeline.Production
import RowReplay.Proofs.Replay.Stopping

/-!
What a pipeline's own producer gives its consumer: all its rows, if the pipeline runs until then,
and the consumer reads on and never leaves the hand-off full for as long as the producer waits.
-/
namespace RowReplay.Production

variable {p p' : Production} {a : Action} {rows : RowSequence} {e : Emission}

/-- What is sent and what is still to emit are the rows, none of which has been refused. -/
structure Emits (rows : RowSequence) (e : Emission) (p : Production) : Prop where
  isAccepting : p.isAccepting = true
  finishedCalls : p.finishedCalls = 0
  attempt : p.attempt = .none ∨ e.remaining ≠ [] ∧ p.attempt ≠ .answered false
  rows : p.sent ++ e.remaining.drop p.attempt.taken = rows

/-- All rows are sent. -/
structure IsThrough (rows : RowSequence) (p : Production) : Prop where
  isAccepting : p.isAccepting = false
  finishedCalls : p.finishedCalls = 1
  attempt : p.attempt = .none
  rows : p.sent = rows

/-- The producer has been set going and has not failed. -/
def OnCourse (rows : RowSequence) (p : Production) : Prop :=
  match p.stage with
  | .idle => False
  | .emitting e => p.Emits rows e
  | .finished => p.IsThrough rows

theorem OnCourse.congr (h : p.OnCourse rows) (hs : p'.stage = p.stage)
    (hn : p'.isAccepting = p.isAccepting) (hf : p'.finishedCalls = p.finishedCalls)
    (ha : p'.attempt = p.attempt) (hr : p'.sent = p.sent) : p'.OnCourse rows := by
  unfold OnCourse at h ⊢
  rw [hs]
  split
  case h_1 hst => simp only [hst] at h
  case h_2 e hst =>
    simp only [hst] at h
    exact ⟨hn.trans h.isAccepting, hf.trans h.finishedCalls, by rw [ha]; exact h.attempt,
      by rw [hr, ha]; exact h.rows⟩
  case h_3 hst =>
    simp only [hst] at h
    exact ⟨hn.trans h.isAccepting, hf.trans h.finishedCalls, ha.trans h.attempt, hr.trans h.rows⟩

/-- The producer works for a consumer that stays, and nobody else asks for room. -/
structure Orderly (rows : RowSequence) (p : Production) : Prop where
  listeners : p.pipeline.listeners = .empty
  isOpen : p.handOff.isOpen = true
  capacity : 0 < p.handOff.capacity
  claims : match p.attempt with
    | .waiting _ => p.handOff.Claimed ()
    | _ => p.handOff.Unclaimed
  present : p.received ++ p.handOff.queue = p.sent
  course : p.OnCourse rows

theorem orderly_started (branch : Branch) (capacity now : Nat) :
    { started branch capacity with now }.Orderly branch.nativeRows where
  listeners := (Pipeline.fresh branch).listeners_start
  isOpen := rfl
  capacity := Nat.le_max_right capacity 1
  claims := HandOff.unclaimed_fresh capacity
  present := rfl
  course := ⟨rfl, rfl, Or.inl rfl, rfl⟩

theorem Orderly.unclaimed (h : p.Orderly rows) (ha : ∀ deadline, p.attempt ≠ .waiting deadline) :
    p.handOff.Unclaimed := by
  have hclaims := h.claims
  split at hclaims
  case h_1 deadline hw => exact (ha deadline hw).elim
  case h_2 => exact hclaims

theorem Orderly.claimed {deadline : Nat} (h : p.Orderly rows) (ha : p.attempt = .waiting deadline) :
    p.handOff.Claimed () := by
  have hclaims := h.claims
  simpa only [ha] using hclaims

theorem Orderly.not_idle (h : p.Orderly rows) : p.stage ≠ .idle := by
  intro hs
  have hcourse := h.course
  simp only [OnCourse, hs] at hcourse

theorem Orderly.emits (h : p.Orderly rows) (hs : p.stage = .emitting e) : p.Emits rows e := by
  have hcourse := h.course
  simpa only [OnCourse, hs] using hcourse

theorem Orderly.isThrough (h : p.Orderly rows) (hs : p.stage = .finished) : p.IsThrough rows := by
  have hcourse := h.course
  simpa only [OnCourse, hs] using hcourse

/-- An offer that waits has still time if there is no room. -/
def InTime (p : Production) : Prop :=
  ∀ deadline, p.attempt = .waiting deadline → outlet.IsFull p → p.now < deadline

theorem Orderly.hearOffer {row : Row} {handOff : HandOff Unit Row} {offer : Offer} {deadline : Nat}
    (h : p.Orderly rows) (hs : p.stage = .emitting e) (hr : e.next? = some row)
    (ht : p.attempt.taken = 0)
    (hp : p.handOff.Passes handOff (if offer = .accepted then [row] else []) [])
    (hc : if offer = .waiting then handOff.Claimed () else handOff.Unclaimed)
    (ho : offer ≠ .refused) : (p.hearOffer row deadline handOff offer).Orderly rows := by
  have hemits := h.emits hs
  have hrows := hemits.rows
  have hqueue := hp.queue
  obtain ⟨rest, hrest⟩ := List.head?_eq_some_iff.mp hr
  have hne : e.remaining ≠ [] := by simp [hrest]
  rw [ht, List.drop_zero, hrest] at hrows
  cases offer with
  | refused => exact (ho rfl).elim
  | accepted =>
    refine ⟨h.listeners, hp.isOpen.trans h.isOpen, hp.capacity ▸ h.capacity, hc, ?_, ?_⟩
    · simp only [Production.hearOffer, ← h.present, List.append_assoc]
      exact congrArg _ hqueue.symm
    · simp only [OnCourse, Production.hearOffer, hs]
      refine ⟨hemits.isAccepting, hemits.finishedCalls, Or.inr ⟨hne, by simp⟩, ?_⟩
      simpa [Attempt.taken, hrest] using hrows
  | waiting =>
    refine ⟨h.listeners, hp.isOpen.trans h.isOpen, hp.capacity ▸ h.capacity, hc, ?_, ?_⟩
    · simp only [Production.hearOffer, ← h.present]
      exact congrArg _ (by simpa using hqueue.symm)
    · simp only [OnCourse, Production.hearOffer, hs]
      refine ⟨hemits.isAccepting, hemits.finishedCalls, Or.inr ⟨hne, by simp⟩, ?_⟩
      simpa [Attempt.taken, hrest] using hrows

/-- As long as the pipeline runs and no offer runs out of time, no row is refused. -/
theorem Stepping.orderly (h : p.Stepping a p') (ha : a.cutsOff = false)
    (hr : p.pipeline.running = true) (ht : p.InTime) (ho : p.Orderly rows) : p'.Orderly rows := by
  have hoperates := h.operates ho.listeners
  cases h with
  | finishInput | dropOutput => cases ha
  | start | stop | abort | dropPipeline =>
    obtain ⟨pipeline, hl, hp⟩ := hoperates rfl
    rw [hp]
    exact ⟨hl, ho.isOpen, ho.capacity, ho.claims, ho.present, ho.course.congr rfl rfl rfl rfl rfl⟩
  | pass =>
    exact ⟨ho.listeners, ho.isOpen, ho.capacity, ho.claims, ho.present,
      ho.course.congr rfl rfl rfl rfl rfl⟩
  | receive hrec =>
    have hp := HandOff.passes_receive hrec
    have hclaimed := HandOff.claimed_receive (t := ()) hrec
    refine ⟨ho.listeners, hp.isOpen.trans ho.isOpen, hp.capacity ▸ ho.capacity, ?_, ?_,
      ho.course.congr rfl rfl rfl rfl rfl⟩
    · cases hat : p.attempt with
      | waiting deadline => exact hclaimed.2 (ho.claimed hat)
      | _ => exact hclaimed.1 (ho.unclaimed (by simp [hat]))
    · have hqueue := hp.queue
      simp only [List.append_nil] at hqueue
      simp only [← ho.present, hqueue, List.append_assoc]
  | enter hat hs hrow =>
    have hemits := ho.emits hs
    have hrows := hemits.rows
    rw [if_pos hr]
    refine ⟨ho.listeners, ho.isOpen, ho.capacity, ho.unclaimed (by simp [hat]), ho.present, ?_⟩
    simp only [OnCourse, hs]
    rw [hat] at hrows
    refine ⟨hemits.isAccepting, hemits.finishedCalls, Or.inr ⟨?_, nofun⟩, hrows⟩
    intro hnil
    simp [Emission.next?, hnil] at hrow
  | shutOut _ hs _ hn => simp [(ho.emits hs).isAccepting] at hn
  | offer hat hs hrow _ hoff =>
    refine ho.hearOffer hs hrow (by simp [hat, Attempt.taken]) (HandOff.passes_offer hoff).1
      (HandOff.claimed_offer (ho.unclaimed (by simp [hat])) hoff) ?_
    rintro rfl
    have := HandOff.isOpen_of_refused hoff
    simp [ho.isOpen] at this
  | review hat hs hrow hrev =>
    refine ho.hearOffer hs hrow (by simp [hat, Attempt.taken]) (HandOff.passes_review hrev).1
      (HandOff.claimed_review (ho.claimed hat) hrev ho.isOpen) ?_
    rintro rfl
    obtain ⟨hdue, hfull⟩ := HandOff.full_of_refused (ho.claimed hat) ho.isOpen hrev
    have := ht _ hat hfull
    simp only [decide_eq_true_eq] at hdue
    omega
  | accept hat hs =>
    have hemits := ho.emits hs
    have hrows := hemits.rows
    refine ⟨ho.listeners, ho.isOpen, ho.capacity, ho.unclaimed (by simp [hat]), ho.present, ?_⟩
    refine ⟨hemits.isAccepting, hemits.finishedCalls, Or.inl rfl, ?_⟩
    simpa [hat, Attempt.taken, Emission.accepted] using hrows
  | refuse hat hs =>
    rcases (ho.emits hs).attempt with hnone | ⟨-, hkept⟩
    · simp [hnone] at hat
    · exact (hkept hat).elim
  | finish hat hs hrow =>
    have hemits := ho.emits hs
    have hrows := hemits.rows
    refine ⟨ho.listeners, ho.isOpen, ho.capacity, ho.claims, ho.present, ?_⟩
    refine ⟨rfl, congrArg (· + 1) hemits.finishedCalls, hat, ?_⟩
    simpa [List.head?_eq_none_iff.mp hrow] using hrows

/-- The producer can go on until it is through. -/
theorem Orderly.can_go_on (h : p.Orderly rows) (hs : p.stage ≠ .finished) :
    ∃ a, Action.isOfProducer a = true ∧ (p.next? a).isSome = true := by
  cases hst : p.stage with
  | idle => exact (h.not_idle hst).elim
  | finished => exact (hs hst).elim
  | emitting e =>
    have hrow : p.onOffer? = e.remaining.head? := by simp [onOffer?, hst, Emission.next?]
    have hhead : p.attempt ≠ .none → ∃ row, p.onOffer? = some row := by
      intro hat
      obtain ⟨row, rest, hr⟩ :=
        List.exists_cons_of_ne_nil ((h.emits hst).attempt.resolve_left hat).1
      exact ⟨row, by rw [hrow, hr, List.head?_cons]⟩
    cases hat : p.attempt with
    | none =>
      cases hr : e.remaining with
      | nil => exact ⟨.finish, rfl, by simp [next?, hat, hst, hrow, hr]⟩
      | cons row rest => exact ⟨.enter, rfl, by simp [next?, hat, hrow, hr]⟩
    | entered =>
      obtain ⟨row, ho⟩ := hhead (by simp [hat])
      exact ⟨.offer, rfl, by simp [next?, hat, ho, (h.emits hst).isAccepting]⟩
    | waiting deadline =>
      obtain ⟨row, ho⟩ := hhead (by simp [hat])
      exact ⟨.review, rfl, by simp [next?, hat, ho]⟩
    | answered taken =>
      cases taken with
      | true => exact ⟨.accept, rfl, by simp [next?, hat, hst]⟩
      | false => exact ⟨.refuse, rfl, by simp [next?, hat, hst]⟩

/-- A producer that is through does nothing more. -/
theorem Stepping.not_isOfProducer (h : p.Stepping a p') (hs : p.stage = .finished) :
    a.isOfProducer = false := by
  cases h with
  | enter _ hst | shutOut _ hst | offer _ hst | review _ hst | accept _ hst | refuse _ hst
  | finish _ hst => simp [hs] at hst
  | _ => rfl

/-! What one step does to the hand-off. -/

theorem Stepping.sent (h : p.Stepping a p') :
    p'.sent = p.sent ∨ ∃ row, p'.sent = p.sent ++ [row] := by
  cases h with
  | @offer _ _ _ offer | @review _ _ _ _ offer =>
    cases offer with
    | accepted => exact Or.inr ⟨_, rfl⟩
    | refused | waiting => exact Or.inl rfl
  | _ => exact Or.inl rfl

theorem Stepping.capacity (h : p.Stepping a p') : p'.handOff.capacity = p.handOff.capacity := by
  cases h with
  | receive hr => exact (HandOff.passes_receive hr).capacity
  | @offer _ _ _ offer _ _ _ _ ho =>
    have hp := (HandOff.passes_offer ho).1.capacity
    cases offer <;> exact hp
  | @review _ _ _ _ offer _ _ _ _ ho =>
    have hp := (HandOff.passes_review ho).1.capacity
    cases offer <;> exact hp
  | _ => rfl

/-- Unless a row is sent, with every row that is taken out less is queued. -/
theorem Stepping.queue_le (h : p.Stepping a p') (hs : p'.sent = p.sent) :
    p'.handOff.queue.length + (if a.isReceive then 1 else 0) ≤ p.handOff.queue.length := by
  cases h with
  | receive hr =>
    have hqueue := congrArg List.length (HandOff.passes_receive hr).queue
    simp only [List.append_nil, List.length_append, List.length_singleton] at hqueue
    simp only [Action.isReceive, if_true]
    omega
  | dropOutput => exact Nat.zero_le _
  | @offer _ _ _ offer _ _ _ _ ho =>
    have hp := (HandOff.passes_offer ho).1
    cases offer with
    | accepted => simp [hearOffer] at hs
    | refused | waiting => exact Nat.le_of_eq (congrArg List.length hp.queue_eq)
  | @review _ _ _ _ offer _ _ _ _ ho =>
    have hp := (HandOff.passes_review ho).1
    cases offer with
    | accepted => simp [hearOffer] at hs
    | refused | waiting => exact Nat.le_of_eq (congrArg List.length hp.queue_eq)
  | _ => exact Nat.le_refl _

/-- An attempt that waits has just begun to, or did so before; and since then no row was sent. -/
theorem Stepping.waits {deadline : Nat} (h : p.Stepping a p')
    (hw : p'.attempt = .waiting deadline) :
    deadline = p'.now + producerTimeout.nanos ∨
      p.attempt = .waiting deadline ∧ p'.sent = p.sent := by
  cases h with
  | enter => cases hr : p.pipeline.running <;> simp [hr] at hw
  | shutOut | accept | refuse => cases hw
  | @offer _ _ _ offer =>
    cases offer with
    | accepted | refused => cases hw
    | waiting =>
      cases hw
      exact Or.inl rfl
  | @review _ _ _ _ offer _ hat =>
    cases offer with
    | accepted | refused => cases hw
    | waiting =>
      cases hw
      exact Or.inr ⟨hat, rfl⟩
  | _ => exact Or.inr ⟨hw, rfl⟩

/-- How far a producer that sends nothing has to go at most before it rests. -/
def toRest (p : Production) : Nat :=
  match p.stage, p.attempt with
  | .emitting _, .none => 2
  | .emitting _, .answered _ => 3
  | .emitting _, _ => 1
  | _, _ => 0

theorem Orderly.toRest_eq_zero_iff (h : p.Orderly rows) : p.toRest = 0 ↔ p.stage = .finished := by
  cases hs : p.stage with
  | idle => exact (h.not_idle hs).elim
  | emitting e => cases ha : p.attempt <;> simp [toRest, hs, ha]
  | finished => simp [toRest, hs]

/-- While nothing is queued, a producer whose pipeline runs sends a row or comes nearer its end. -/
theorem Stepping.toRest_le (h : p.Stepping a p') (ho : p.Orderly rows)
    (hr : p.pipeline.running = true) (hq : p.handOff.queue = []) (hs : p'.sent = p.sent) :
    p'.toRest + (if a.isOfProducer then 1 else 0) ≤ p.toRest := by
  have hoperates := h.operates ho.listeners
  cases h with
  | start | stop | abort | dropPipeline =>
    obtain ⟨pipeline, -, hp⟩ := hoperates rfl
    rw [hp]
    exact Nat.le_refl _
  | finishInput | receive | dropOutput | pass => exact Nat.le_refl _
  | enter hat hst => simp [toRest, hat, hst, hr]
  | shutOut _ hst _ hn => simp [(ho.emits hst).isAccepting] at hn
  | offer hat _ _ _ hoff =>
    obtain rfl :=
      HandOff.offer_of_empty (ho.unclaimed (by simp [hat])) ho.isOpen hq ho.capacity hoff
    simp [hearOffer] at hs
  | review hat _ _ hrev =>
    obtain rfl := HandOff.review_of_empty (ho.claimed hat) ho.isOpen hq ho.capacity hrev
    simp [hearOffer] at hs
  | accept hat hst | refuse hat hst => simp [toRest, hat, hst]
  | finish hat hst => simp [toRest, hat, hst]

/-! Whole runs. -/

variable {branch : Branch} {capacity i l m n : Nat} {R : Run next? (fresh branch capacity)}

/-- The pipeline is started, and not aborted or dropped before. -/
structure Starts (R : Run next? (fresh branch capacity)) (i : Nat) : Prop where
  event : R.event i = some .start
  before : ∀ j < i, ∀ a, R.event j = some a → a.isNews = false

theorem Starts.state (h : Starts R i) (hg : outlet.Steady R i) (hni : n ≤ i) :
    R.state n = { fresh branch capacity with now := (R.state n).now } := by
  induction n with
  | zero => rw [R.initial]
  | succ n ih =>
    have hn := ih (by omega)
    cases he : R.event n with
    | none => rwa [R.pad n he]
    | some a =>
      have hstep := stepping (R.step n a he)
      rw [hn] at hstep
      exact hstep.fresh (hg.stays n a he) (h.before n hni a he)

theorem Starts.state_succ (h : Starts R i) (hg : outlet.Steady R i) :
    ∃ now, R.state (i + 1) = { started branch capacity with now } := by
  have hstep := stepping (R.step i _ h.event)
  rw [h.state hg (Nat.le_refl i)] at hstep
  generalize R.state (i + 1) = p' at hstep
  cases hstep
  exact ⟨_, operate_start_fresh ..⟩

/-- Whoever waits for room that there is not has found none ever since it began to wait. -/
theorem full_since (R : Run next? (fresh branch capacity)) {deadline : Nat}
    (hw : (R.state n).attempt = .waiting deadline) (hf : outlet.IsFull (R.state n)) :
    ∃ time, time + producerTimeout.nanos ≤ deadline ∧
      R.HeldSince outlet.IsFull outlet.now time n := by
  induction n with
  | zero =>
    rw [R.initial] at hw
    cases hw
  | succ n ih =>
    cases he : R.event n with
    | none =>
      rw [R.pad n he] at hw hf
      obtain ⟨time, ht, hheld⟩ := ih hw hf
      exact ⟨time, ht, hheld.succ (by rwa [R.pad n he])⟩
    | some a =>
      have hstep := stepping (R.step n a he)
      rcases hstep.waits hw with rfl | ⟨hbefore, hsent⟩
      · exact ⟨_, Nat.le_refl _, .refl hf⟩
      · have hfull : outlet.IsFull (R.state n) := by
          have hqueue := hstep.queue_le hsent
          have hcapacity := hstep.capacity
          simp only [outlet, Outlet.IsFull] at hf ⊢
          omega
        obtain ⟨time, ht, hheld⟩ := ih hbefore hfull
        exact ⟨time, ht, hheld.succ hf⟩

theorem in_time (hg : outlet.Steady R i) (n : Nat) : (R.state n).InTime := by
  intro deadline hw hf
  obtain ⟨time, ht, hheld⟩ := full_since R hw hf
  exact Nat.lt_of_lt_of_le (hg.brisk n time hheld) ht

theorem Starts.orderly (h : Starts R i) (hg : outlet.Steady R i) (hin : i < n) :
    (R.state n).Orderly branch.nativeRows := by
  refine R.stable (P := Orderly branch.nativeRows) (m := i + 1) ?_ hin fun j a hj he ho => ?_
  · obtain ⟨now, hstate⟩ := h.state_succ hg
    rw [hstate]
    exact orderly_started ..
  · exact (stepping (R.step j a he)).orderly (hg.stays j a he) (hg.running j (by omega))
      (in_time hg j) ho

/-- From some time on no row is sent. -/
theorem sending_ends (h : Starts R i) (hg : outlet.Steady R i) :
    ∃ n, i < n ∧ ∀ j, n ≤ j → (R.state (j + 1)).sent = (R.state j).sent := by
  have hle : ∀ j, i < j → (R.state j).sent.length ≤ branch.nativeRows.length := by
    intro j hij
    have ho := h.orderly hg hij
    cases hs : (R.state j).stage with
    | idle => exact (ho.not_idle hs).elim
    | emitting e =>
      rw [← (ho.emits hs).rows, List.length_append]
      exact Nat.le_add_right ..
    | finished => exact Nat.le_of_eq (congrArg List.length (ho.isThrough hs).rows)
  obtain ⟨n, hin, hn⟩ := R.settles (m := i + 1)
    (fun p => branch.nativeRows.length - p.sent.length) fun j a _ he => by
      rcases (stepping (R.step j a he)).sent with hsent | ⟨row, hsent⟩
      · simp only [hsent, Nat.le_refl]
      · simp only [hsent, List.length_append]
        omega
  refine ⟨n, hin, fun j hnj => ?_⟩
  have hlen := (hn j hnj).trans (hn (j + 1) (by omega)).symm
  have hj := hle j (by omega)
  have hj' := hle (j + 1) (by omega)
  cases he : R.event j with
  | none => rw [R.pad j he]
  | some a =>
    rcases (stepping (R.step j a he)).sent with hsent | ⟨row, hsent⟩
    · exact hsent
    · rw [hsent, List.length_append, List.length_singleton] at hlen hj'
      omega

/-- All rows are emitted and received, and the consumer is told that no more come. -/
structure Over (rows : RowSequence) (p : Production) : Prop where
  stage : p.stage = .finished
  listeners : p.pipeline.listeners = .empty
  attempt : p.attempt = .none
  atEnd : p.AtEnd
  received : p.received = rows
  finishedCalls : p.finishedCalls = 1

theorem Orderly.over (h : p.Orderly rows) (hs : p.stage = .finished) (hq : p.handOff.queue = []) :
    p.Over rows := by
  have hthrough := h.isThrough hs
  have hpresent := h.present
  rw [hq, List.append_nil, hthrough.rows] at hpresent
  exact ⟨hs, h.listeners, hthrough.attempt,
    ⟨hq, hthrough.isAccepting, fun _ hw => by simp [hthrough.attempt] at hw⟩, hpresent,
    hthrough.finishedCalls⟩

theorem Stepping.over (h : p.Stepping a p') (ho : p.Over rows) : p'.Over rows := by
  have hoperates := h.operates ho.listeners
  have hproducer := h.not_isOfProducer ho.stage
  cases h with
  | start | stop | abort | dropPipeline =>
    obtain ⟨pipeline, hl, hp⟩ := hoperates rfl
    rw [hp]
    exact ⟨ho.stage, hl, ho.attempt, ⟨ho.atEnd.queue, ho.atEnd.input, ho.atEnd.attempt⟩,
      ho.received, ho.finishedCalls⟩
  | finishInput =>
    exact ⟨ho.stage, ho.listeners, ho.attempt, ⟨ho.atEnd.queue, rfl, ho.atEnd.attempt⟩,
      ho.received, ho.finishedCalls⟩
  | receive hr => simp [HandOff.receive, ho.atEnd.queue] at hr
  | dropOutput =>
    exact ⟨ho.stage, ho.listeners, ho.attempt, ⟨rfl, ho.atEnd.input, ho.atEnd.attempt⟩,
      ho.received, ho.finishedCalls⟩
  | pass =>
    exact ⟨ho.stage, ho.listeners, ho.attempt, ⟨ho.atEnd.queue, ho.atEnd.input, ho.atEnd.attempt⟩,
      ho.received, ho.finishedCalls⟩
  | _ => cases hproducer

theorem Starts.over (h : Starts R i) (hg : outlet.Steady R i) (hreads : R.Just Action.isReceive)
    (hturns : R.Just Action.isOfProducer) :
    ∃ n, ∀ m, n ≤ m → (R.state m).Over branch.nativeRows := by
  obtain ⟨n₁, hn₁, hsent⟩ := sending_ends h hg
  obtain ⟨n₂, hn₂, hqueue⟩ := R.runs_out (m := n₁) (fun p => p.handOff.queue.length) hreads
    (fun j a hj he => (stepping (R.step j a he)).queue_le (hsent j hj)) fun j _ hpos => by
      obtain ⟨row, rest, hq⟩ := List.exists_cons_of_length_pos hpos
      exact ⟨.receive, rfl, by simp [next?, HandOff.receive_of_queue hq]⟩
  have hempty : ∀ j, n₂ ≤ j → (R.state j).handOff.queue = [] := fun j hj =>
    List.length_eq_zero_iff.mp (hqueue j hj)
  obtain ⟨n₃, hn₃, hrest⟩ := R.runs_out (m := n₂) (fun p => p.toRest) hturns
    (fun j a hj he => (stepping (R.step j a he)).toRest_le (h.orderly hg (by omega))
      (hg.running j (by omega)) (hempty j hj) (hsent j (by omega)))
    fun j hj hpos => by
      have ho := h.orderly hg (show i < j by omega)
      exact ho.can_go_on fun hs => Nat.ne_of_gt hpos (ho.toRest_eq_zero_iff.mpr hs)
  refine ⟨n₃, fun m hm => ?_⟩
  have ho := h.orderly hg (show i < m by omega)
  exact ho.over (ho.toRest_eq_zero_iff.mp (hrest m hm)) (hempty m (by omega))

/-- A pipeline that is started and runs until its stream ends, and whose consumer reads on and never
leaves the hand-off full for as long as the producer waits, gives it all the rows of its branch and
nothing else, and tells it then that no more come. The input is told so once. -/
theorem emits_all (h : Starts R i) (hr : outlet.KeptRunning R i) (hc : outlet.Consumed R)
    (hturns : R.Just Action.isOfProducer) :
    ∃ n, ∀ m, n ≤ m → (R.state m).Over branch.nativeRows := by
  by_cases hend : ∃ n, (R.state n).AtEnd
  · obtain ⟨n, hn⟩ := hend
    obtain ⟨l, hl, hbefore⟩ := R.exists_first hn
    have hil := hr.lt_of_atEnd hl
    have hstarts : Starts (R.upTo l) i :=
      ⟨R.event_upTo.mpr ⟨hil, h.event⟩, fun j hj a he => h.before j hj a (R.event_upTo.mp he).2⟩
    have hsteady := hc.steady_upTo hr hil hbefore
    have ho := hstarts.orderly hsteady hil
    rw [R.state_upTo (Nat.le_refl l)] at ho
    have hthrough : (R.state l).stage = .finished := by
      cases hs : (R.state l).stage with
      | idle => exact (ho.not_idle hs).elim
      | emitting e =>
        have haccepting := (ho.emits hs).isAccepting
        simp [hl.input] at haccepting
      | finished => rfl
    exact ⟨l, fun m hlm => R.stable (ho.over hthrough hl.queue) hlm
      fun j a _ he => (stepping (R.step j a he)).over⟩
  · exact h.over (hc.steady hr fun n hn => hend ⟨n, hn⟩) hc.reads hturns

end RowReplay.Production
