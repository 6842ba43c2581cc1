import RowReplay.Proofs.Run
import RowReplay.Replay.Session

/-!
The course of a session, whatever surrounds it. The listener opens the gate or drops it, the input
answers as it likes, the clock shows any time that is not past, and the task may crash or be thrown
away; what the session does to others is kept in order.
-/
namespace RowReplay

/-- What a session does to others. -/
inductive Deed
  /-- The input has taken a row. -/
  | handed (row : Row)
  | effect (effect : SessionEffect)

def Deed.isFinish : Deed → Bool
  | .effect .finishInput => true
  | _ => false

structure Course where
  session : Session
  /-- The last reading of the clock. -/
  clock : Nat
  deeds : List Deed

namespace Course

inductive Action
  | openGate
  | abandonGate
  /-- The task has its first turn. -/
  | begin (now : Nat)
  /-- The session finds its gate opened or abandoned, or its time over. -/
  | look (now : Nat)
  /-- The input has said whether it runs, before a row is offered. -/
  | next (running : Bool)
  | accept
  /-- The input has refused the row on offer, and said whether it runs. -/
  | refuse (running : Bool)
  /-- The task crashes, or is thrown away. -/
  | lose

def armed (id : SessionId) (rows : RowSequence) (limits : ReplayLimits) : Course :=
  ⟨.armed id rows limits, 0, []⟩

/-- The session moves on, and does what belongs to its end if that is one. -/
def moveTo (c : Course) (s : Session) : Course :=
  { c with session := s, deeds := c.deeds ++ (s.closing c.session.hasBegun).map .effect }

/-- The course after an action, if the action can be taken. -/
def next? (c : Course) : Action → Option Course
  | .openGate => some { c with session := c.session.openGate }
  | .abandonGate => some { c with session := c.session.abandonGate }
  | .begin now =>
    match c.session.stage with
    | .submitted =>
      if c.clock ≤ now then some { c with session := c.session.begin now, clock := now } else none
    | _ => none
  | .look now =>
    if c.clock ≤ now then
      (c.session.look now).map fun looked => { c.moveTo looked.1 with clock := now }
    else none
  | .next running =>
    match c.session.stage with
    | .delivering d => some (c.moveTo (c.session.next d running).1)
    | _ => none
  | .accept =>
    match c.session.stage with
    | .offering d =>
      d.remaining.head?.map fun row =>
        { c with session := c.session.accepted d, deeds := c.deeds ++ [.handed row] }
    | _ => none
  | .refuse running =>
    match c.session.stage with
    | .offering d => some (c.moveTo (c.session.refused d running).1)
    | _ => none
  | .lose => if c.session.isEnded then none else some (c.moveTo c.session.lose)

/-- How often the input has been told that no more rows come. -/
def finishedCalls (c : Course) : Nat := c.deeds.countP Deed.isFinish

/-- The session goes to another stage. -/
def atStage (c : Course) (stage : SessionStage) : Course :=
  c.moveTo { c.session with stage }

@[simp] theorem atStage_session (c : Course) (stage : SessionStage) :
    (c.atStage stage).session = { c.session with stage } := rfl

/-- The report of a delivery that is over. -/
def outcome (c : Course) (d : Delivery) : ReplayOutcome :=
  ⟨c.session.id, d.delivered, c.session.rows.length⟩

/-- What each action does. -/
inductive Moving (c : Course) : Action → Course → Prop
  | openGate : Moving c .openGate { c with session := c.session.openGate }
  | abandonGate : Moving c .abandonGate { c with session := c.session.abandonGate }
  | begin {now : Nat} (hs : c.session.stage = .submitted) (ht : c.clock ≤ now) :
    Moving c (.begin now) { c with session := c.session.begin now, clock := now }
  | ready {now deadline : Nat} (hs : c.session.stage = .waiting deadline)
    (hg : c.session.gate = .opened) (ht : c.clock ≤ now) :
    Moving c (.look now) { c.atStage (.delivering (.start c.session.rows)) with clock := now }
  | abandoned {now deadline : Nat} (hs : c.session.stage = .waiting deadline)
    (hg : c.session.gate = .abandoned) (ht : c.clock ≤ now) :
    Moving c (.look now) { c.atStage (.ended (.error .readinessAbandoned)) with clock := now }
  | timedOut {now deadline : Nat} (hs : c.session.stage = .waiting deadline)
    (hg : c.session.gate = .shut) (ht : c.clock ≤ now) (hd : deadline ≤ now) :
    Moving c (.look now)
      { c.atStage (.ended (.error (.readinessTimeout c.session.limits.readyTimeout))) with
        clock := now }
  | offer {d : Delivery} {row : Row} (hs : c.session.stage = .delivering d)
    (hr : d.remaining.head? = some row) : Moving c (.next true) (c.atStage (.offering d))
  | halt {d : Delivery} {running : Bool} (hs : c.session.stage = .delivering d)
    (hn : running = false ∨ d.remaining = []) :
    Moving c (.next running) (c.atStage (.ended (.ok (c.outcome d))))
  | accept {d : Delivery} {row : Row} (hs : c.session.stage = .offering d)
    (hr : d.remaining.head? = some row) :
    Moving c .accept
      { c with session := c.session.accepted d, deeds := c.deeds ++ [.handed row] }
  | overflow {d : Delivery} {running : Bool} (hs : c.session.stage = .offering d)
    (ha : d.attempts + 1 = attemptBound) :
    Moving c (.refuse running) (c.atStage (.ended (.error .taskLost)))
  | stopped {d : Delivery} (hs : c.session.stage = .offering d)
    (ha : d.attempts + 1 ≠ attemptBound) :
    Moving c (.refuse false) (c.atStage (.ended (.ok (c.outcome d))))
  | exhausted {d : Delivery} {limit : Nat} (hs : c.session.stage = .offering d)
    (ha : d.attempts + 1 ≠ attemptBound) (hl : c.session.limits.maxPutAttempts = some limit)
    (hm : limit ≤ d.attempts + 1) :
    Moving c (.refuse true) (c.atStage (.ended (.ok (c.outcome d))))
  | again {d : Delivery} (hs : c.session.stage = .offering d)
    (ha : d.attempts + 1 ≠ attemptBound)
    (hl : ∀ limit, c.session.limits.maxPutAttempts = some limit → d.attempts + 1 < limit) :
    Moving c (.refuse true) (c.atStage (.offering { d with attempts := d.attempts + 1 }))
  | lose (hs : c.session.isEnded = false) :
    Moving c .lose (c.atStage (.ended (.error .taskLost)))

theorem moving {c c' : Course} {a : Action} (h : c.next? a = some c') : Moving c a c' := by
  cases a with
  | openGate =>
    cases h
    exact .openGate
  | abandonGate =>
    cases h
    exact .abandonGate
  | begin now =>
    simp only [next?] at h
    split at h
    case h_1 hs =>
      obtain ⟨ht, rfl⟩ := by simpa using h
      exact .begin hs ht
    case h_2 => cases h
  | look now =>
    simp only [next?] at h
    split at h
    case isTrue ht =>
      obtain ⟨looked, hl, rfl⟩ := Option.map_eq_some_iff.mp h
      unfold Session.look at hl
      split at hl
      case h_1 hs =>
        split at hl
        case h_1 hg =>
          cases hl
          exact .ready hs hg ht
        case h_2 hg =>
          cases hl
          exact .abandoned hs hg ht
        case h_3 hg =>
          obtain ⟨hd, rfl⟩ := by simpa using hl
          exact .timedOut hs hg ht hd
      case h_2 => cases hl
    case isFalse => cases h
  | next running =>
    simp only [next?] at h
    split at h
    case h_1 d hs =>
      cases h
      unfold Session.next Delivery.next?
      cases running with
      | false => exact .halt hs (Or.inl rfl)
      | true =>
        cases hr : d.remaining with
        | nil => exact .halt hs (Or.inr hr)
        | cons row rest => exact .offer hs (congrArg List.head? hr)
    case h_2 => cases h
  | accept =>
    simp only [next?] at h
    split at h
    case h_1 hs =>
      obtain ⟨row, hr, rfl⟩ := Option.map_eq_some_iff.mp h
      exact .accept hs hr
    case h_2 => cases h
  | refuse running =>
    simp only [next?] at h
    split at h
    case h_1 d hs =>
      cases h
      unfold Session.refused Delivery.refused
      by_cases ha : d.attempts + 1 = attemptBound
      · simp only [ha, if_true]
        exact .overflow hs ha
      · simp only [ha, if_false]
        cases running with
        | false => exact .stopped hs ha
        | true =>
          cases hl : c.session.limits.maxPutAttempts with
          | none => exact .again hs ha (by simp [hl])
          | some limit =>
            by_cases hm : limit ≤ d.attempts + 1
            · simp only [Option.any_some, hm, decide_true, if_true]
              exact .exhausted hs ha hl hm
            · simp only [Option.any_some, hm, decide_false]
              exact .again hs ha (by simpa [hl] using hm)
    case h_2 => cases h
  | lose =>
    simp only [next?] at h
    split at h
    case isTrue => cases h
    case isFalse hs =>
      cases h
      exact .lose (by simpa using hs)

end Course

/-! A session by itself, of whose course no more is known than that it goes on from there. -/

namespace Session

/-- The session is as it is somewhere on its course, whose clock has not passed a time. -/
def OnCourse (s : Session) (now : Nat) : Prop :=
  ∃ id rows limits c, Reaches Course.next? (.armed id rows limits) c ∧ c.session = s ∧ c.clock ≤ now

variable {s : Session} {d : Delivery} {now : Nat}

theorem onCourse_armed (id : SessionId) (rows : RowSequence) (limits : ReplayLimits) (now : Nat) :
    (armed id rows limits).OnCourse now := ⟨id, rows, limits, _, .refl, rfl, Nat.zero_le now⟩

theorem OnCourse.mono {later : Nat} (h : s.OnCourse now) (hl : now ≤ later) : s.OnCourse later := by
  obtain ⟨id, rows, limits, c, hc, hs, ht⟩ := h
  exact ⟨id, rows, limits, c, hc, hs, Nat.le_trans ht hl⟩

/-- An action that can be taken wherever the session is as it is leads on. -/
theorem OnCourse.act {s' : Session} (h : s.OnCourse now) (a : Course.Action)
    (ha : ∀ c : Course, c.session = s → c.clock ≤ now →
      ∃ c', c.next? a = some c' ∧ c'.session = s' ∧ c'.clock ≤ now) : s'.OnCourse now := by
  obtain ⟨id, rows, limits, c, hc, hs, ht⟩ := h
  obtain ⟨c', hstep, hs', ht'⟩ := ha c hs ht
  exact ⟨id, rows, limits, c', hc.step hstep, hs', ht'⟩

theorem OnCourse.openGate (h : s.OnCourse now) : s.openGate.OnCourse now := by
  refine h.act .openGate ?_
  rintro c rfl ht
  exact ⟨_, rfl, rfl, ht⟩

theorem OnCourse.abandonGate (h : s.OnCourse now) : s.abandonGate.OnCourse now := by
  refine h.act .abandonGate ?_
  rintro c rfl ht
  exact ⟨_, rfl, rfl, ht⟩

theorem OnCourse.begin (h : s.OnCourse now) (hs : s.stage = .submitted) :
    (s.begin now).OnCourse now := by
  refine h.act (.begin now) ?_
  rintro c rfl ht
  exact ⟨{ c with session := c.session.begin now, clock := now }, by simp [Course.next?, hs, ht],
    rfl, Nat.le_refl now⟩

theorem OnCourse.begun (h : s.OnCourse now) : (s.begun now).OnCourse now := by
  unfold Session.begun
  split
  case h_1 hs => exact h.begin hs
  case h_2 => exact h

theorem OnCourse.look {looked : Session × SessionEvent} (h : s.OnCourse now)
    (hl : s.look now = some looked) : looked.1.OnCourse now := by
  refine h.act (.look now) ?_
  rintro c rfl ht
  exact ⟨{ c.moveTo looked.1 with clock := now }, by simp [Course.next?, hl, ht], rfl,
    Nat.le_refl now⟩

theorem OnCourse.next (h : s.OnCourse now) (hs : s.stage = .delivering d) (running : Bool) :
    (s.next d running).1.OnCourse now := by
  refine h.act (.next running) ?_
  rintro c rfl ht
  exact ⟨c.moveTo (c.session.next d running).1, by simp [Course.next?, hs], rfl, ht⟩

theorem OnCourse.accepted {row : Row} {rest : RowSequence} (h : s.OnCourse now)
    (hs : s.stage = .offering d) (hr : d.remaining = row :: rest) :
    (s.accepted d).OnCourse now := by
  refine h.act .accept ?_
  rintro c rfl ht
  exact ⟨{ c with session := c.session.accepted d, deeds := c.deeds ++ [.handed row] },
    by simp [Course.next?, hs, hr], rfl, ht⟩

theorem OnCourse.refused (h : s.OnCourse now) (hs : s.stage = .offering d) (running : Bool) :
    (s.refused d running).1.OnCourse now := by
  refine h.act (.refuse running) ?_
  rintro c rfl ht
  exact ⟨c.moveTo (c.session.refused d running).1, by simp [Course.next?, hs], rfl, ht⟩

theorem OnCourse.lose (h : s.OnCourse now) (hs : s.isEnded = false) : s.lose.OnCourse now := by
  refine h.act .lose ?_
  rintro c rfl ht
  exact ⟨c.moveTo c.session.lose, by simp [Course.next?, hs], rfl, ht⟩

end Session

end RowReplay
