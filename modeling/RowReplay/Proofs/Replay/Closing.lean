import RowReplay.Proofs.Replay.Course

/-!
The end of a session. Whichever way a session ends that has had a turn, it has told its input once
that no more rows come: after the last row that the input took, and before its result is there.
-/
namespace RowReplay.Course

variable {c c' : Course} {d : Delivery} {a : Action} {begun : Bool} {k : Nat}

/-! Going to another stage. -/

theorem atStage_deeds_going {stage : SessionStage} (h : ∀ result, stage ≠ .ended result) :
    (c.atStage stage).deeds = c.deeds := by
  cases stage with
  | ended result => exact (h result rfl).elim
  | _ => simp [atStage, moveTo, Session.closing]

theorem atStage_deeds_ended (c : Course) (result : Except ReplayError ReplayOutcome) :
    (c.atStage (.ended result)).deeds = c.deeds ++
      if c.session.hasBegun then [.effect .finishInput, .effect (.resolve result)]
      else [.effect (.resolve result)] := by
  cases hb : c.session.hasBegun <;> simp [atStage, moveTo, Session.closing, hb]

/-! What has been done so far. -/

def Action.isBegin : Action → Bool
  | .begin _ => true
  | _ => false

/-- The deeds of handing over the first rows. -/
def handed (c : Course) (k : Nat) : List Deed := (c.session.rows.take k).map .handed

/-- The rows taken so far are the first ones, and the others are still to come. -/
structure Handing (c : Course) (d : Delivery) : Prop where
  le : d.delivered ≤ c.session.rows.length
  remaining : d.remaining = c.session.rows.drop d.delivered
  deeds : c.deeds = c.handed d.delivered

/-- The session has ended after a turn: it told its input, and then its result was there. -/
def Closed (c : Course) (result : Except ReplayError ReplayOutcome) : Prop :=
  ∃ k, k ≤ c.session.rows.length ∧ (∀ outcome, result = .ok outcome → outcome.delivered = k) ∧
    c.deeds = c.handed k ++ [.effect .finishInput, .effect (.resolve result)]

/-- What a session has done, in view of where it stands and whether it has had a turn. -/
def Told (c : Course) (begun : Bool) : Prop :=
  match c.session.stage with
  | .submitted => begun = false ∧ c.deeds = []
  | .waiting _ => begun = true ∧ c.deeds = []
  | .delivering d => begun = true ∧ c.Handing d
  | .offering d => begun = true ∧ c.Handing d
  | .ended result =>
    begun = true ∧ c.Closed result ∨
      begun = false ∧ result = .error .taskLost ∧ c.deeds = [.effect (.resolve result)]

theorem Handing.congr {d' : Delivery} (h : c.Handing d) (hr : c'.session.rows = c.session.rows)
    (hc : c'.deeds = c.deeds) (hd : d'.delivered = d.delivered) (hm : d'.remaining = d.remaining) :
    c'.Handing d' := by
  refine ⟨?_, ?_, ?_⟩
  · rw [hd, hr]
    exact h.le
  · rw [hm, hd, hr]
    exact h.remaining
  · rw [hc, hd, handed, hr]
    exact h.deeds

theorem Handing.accepted {row : Row} (h : c.Handing d) (hr : d.remaining.head? = some row) :
    Handing { c with session := c.session.accepted d, deeds := c.deeds ++ [.handed row] }
      d.accepted := by
  have hrow : c.session.rows[d.delivered]? = some row := by rw [← hr, h.remaining, List.head?_drop]
  refine ⟨?_, ?_, ?_⟩
  · exact (List.getElem?_eq_some_iff.mp hrow).1
  · simp only [Delivery.accepted, h.remaining, List.tail_drop, Session.accepted]
  · simp [handed, Delivery.accepted, Session.accepted, List.take_add_one, hrow, h.deeds]

theorem Handing.closed (h : c.Handing d) (hb : c.session.hasBegun = true)
    {result : Except ReplayError ReplayOutcome}
    (ho : ∀ outcome, result = .ok outcome → outcome.delivered = d.delivered) :
    (c.atStage (.ended result)).Closed result := by
  refine ⟨d.delivered, h.le, ho, ?_⟩
  rw [atStage_deeds_ended, hb, if_pos rfl, h.deeds]
  rfl

theorem handing_start (h : c.deeds = []) : c.Handing (.start c.session.rows) :=
  ⟨Nat.zero_le _, rfl, h⟩

theorem Told.congr (h : c.Told begun) (hs : c'.session.stage = c.session.stage)
    (hr : c'.session.rows = c.session.rows) (hd : c'.deeds = c.deeds) : c'.Told begun := by
  cases hst : c.session.stage with
  | submitted | waiting =>
    simp only [Told, hs, hst, hd] at h ⊢
    exact h
  | delivering | offering =>
    simp only [Told, hs, hst] at h ⊢
    exact ⟨h.1, h.2.congr hr hd rfl rfl⟩
  | ended =>
    simp only [Told, hs, hst, Closed, handed, hr, hd] at h ⊢
    exact h

/-- What has been done is told of every step. -/
theorem Told.step (h : c.Told begun) (hstep : c.Moving a c') : c'.Told (begun || a.isBegin) := by
  cases hstep with
  | openGate | abandonGate =>
    simp only [Action.isBegin, Bool.or_false]
    exact h.congr rfl rfl rfl
  | begin hs =>
    simp only [Told, hs] at h
    exact ⟨Bool.or_true _, h.2⟩
  | ready hs =>
    simp only [Told, hs] at h
    obtain ⟨rfl, hd⟩ := h
    exact ⟨rfl, (handing_start hd).congr rfl (atStage_deeds_going nofun) rfl rfl⟩
  | abandoned hs | timedOut hs =>
    simp only [Told, hs] at h
    obtain ⟨rfl, hd⟩ := h
    exact Or.inl ⟨rfl, (handing_start hd).closed (by simp [Session.hasBegun, hs]) nofun⟩
  | offer hs | again hs =>
    simp only [Told, hs] at h
    obtain ⟨rfl, hh⟩ := h
    exact ⟨rfl, hh.congr rfl (atStage_deeds_going nofun) rfl rfl⟩
  | accept hs hr =>
    simp only [Told, hs] at h
    obtain ⟨rfl, hh⟩ := h
    exact ⟨rfl, hh.accepted hr⟩
  | halt hs | stopped hs | exhausted hs =>
    simp only [Told, hs] at h
    obtain ⟨rfl, hh⟩ := h
    refine Or.inl ⟨rfl, hh.closed (by simp [Session.hasBegun, hs]) ?_⟩
    rintro _ ⟨⟩
    rfl
  | overflow hs =>
    simp only [Told, hs] at h
    obtain ⟨rfl, hh⟩ := h
    exact Or.inl ⟨rfl, hh.closed (by simp [Session.hasBegun, hs]) nofun⟩
  | lose hend =>
    cases hs : c.session.stage with
    | submitted =>
      -- Only here nothing tells the input: what would do so is made in the first turn.
      simp only [Told, hs] at h
      obtain ⟨rfl, hd⟩ := h
      refine Or.inr ⟨rfl, rfl, ?_⟩
      rw [atStage_deeds_ended, hd]
      simp [Session.hasBegun, hs]
    | waiting =>
      simp only [Told, hs] at h
      obtain ⟨rfl, hd⟩ := h
      exact Or.inl ⟨rfl, (handing_start hd).closed (by simp [Session.hasBegun, hs]) nofun⟩
    | delivering | offering =>
      simp only [Told, hs] at h
      obtain ⟨rfl, hh⟩ := h
      exact Or.inl ⟨rfl, hh.closed (by simp [Session.hasBegun, hs]) nofun⟩
    | ended => simp [Session.isEnded, hs] at hend

theorem rows_step (hstep : c.Moving a c') : c'.session.rows = c.session.rows := by
  cases hstep <;> rfl

/-- After its end a session does nothing more. -/
theorem ended_step {result : Except ReplayError ReplayOutcome} (h : c.session.stage = .ended result)
    (hstep : c.Moving a c') : c'.session.stage = .ended result ∧ c'.deeds = c.deeds := by
  cases hstep with
  | openGate | abandonGate => exact ⟨h, rfl⟩
  | lose hend => simp [Session.isEnded, h] at hend
  | _ => simp_all

/-! Whole runs. -/

variable {id : SessionId} {rows : RowSequence} {limits : ReplayLimits} {b m n now : Nat}
  {result : Except ReplayError ReplayOutcome}

theorem rows_eq (R : Run next? (armed id rows limits)) (n : Nat) :
    (R.state n).session.rows = rows :=
  R.invariant (P := fun c => c.session.rows = rows) rfl
    (fun _ _ _ h hstep => (rows_step (moving hstep)).trans h) n

theorem told (R : Run next? (armed id rows limits)) (n : Nat) :
    ∃ begun, (R.state n).Told begun ∧
      (begun = true ↔ ∃ b, b < n ∧ ∃ now, R.event b = some (.begin now)) := by
  induction n with
  | zero =>
    rw [R.initial]
    exact ⟨false, ⟨rfl, rfl⟩, by simp⟩
  | succ n ih =>
    obtain ⟨begun, ht, hb⟩ := ih
    cases he : R.event n with
    | none =>
      rw [R.pad n he]
      refine ⟨begun, ht, hb.trans ?_⟩
      grind
    | some a =>
      refine ⟨_, ht.step (moving (R.step n a he)), ?_⟩
      rw [Bool.or_eq_true, hb]
      cases a <;> grind [Action.isBegin]

theorem ended_stays (R : Run next? (armed id rows limits))
    (h : (R.state n).session.stage = .ended result) (hnm : n ≤ m) :
    (R.state m).session.stage = .ended result ∧ (R.state m).deeds = (R.state n).deeds := by
  refine R.stable (P := fun c => c.session.stage = .ended result ∧ c.deeds = (R.state n).deeds)
    ⟨h, rfl⟩ hnm ?_
  rintro i a - he ⟨hi, hd⟩
  obtain ⟨hi', hd'⟩ := ended_step hi (moving (R.step i a he))
  exact ⟨hi', hd'.trans hd⟩

/-- A session that has ended before a first turn never has one. -/
theorem begins_before_end (R : Run next? (armed id rows limits))
    (hb : R.event b = some (.begin now)) (he : (R.state n).session.stage = .ended result) :
    b < n := by
  refine Nat.lt_of_not_le fun hnb => ?_
  have hend := (ended_stays R he hnb).1
  have hmove := moving (R.step b _ hb)
  generalize R.state (b + 1) = c' at hmove
  cases hmove with
  | begin hs => simp [hs] at hend

theorem countP_isFinish_handed (rows : RowSequence) :
    (rows.map Deed.handed).countP Deed.isFinish = 0 := by
  rw [List.countP_map, List.countP_eq_zero]
  exact fun _ _ => Bool.false_ne_true

/-- A session that goes on has handed over its first rows, and done nothing else. -/
theorem Told.going (h : c.Told begun) (hgoing : c.session.isEnded = false) :
    ∃ k, c.deeds = c.handed k := by
  cases hs : c.session.stage with
  | submitted | waiting =>
    simp only [Told, hs] at h
    exact ⟨0, h.2⟩
  | delivering | offering =>
    simp only [Told, hs] at h
    exact ⟨_, h.2.deeds⟩
  | ended => simp [Session.isEnded, hs] at hgoing

/-- For a session that has a first turn, whatever its surroundings do: as long as it goes on, its input
has not been told that no more rows come, nor is there a result. At its end, of whatever kind, it has
told its input just once, after the first rows of its sequence were taken and before the result was
there, and nothing follows. -/
theorem finished_once (R : Run next? (armed id rows limits)) (hb : R.event b = some (.begin now)) :
    (∀ n, (R.state n).session.isEnded = false →
      (R.state n).finishedCalls = 0 ∧ ∀ result, .effect (.resolve result) ∉ (R.state n).deeds) ∧
    ∀ n result, (R.state n).session.stage = .ended result →
      (R.state n).finishedCalls = 1 ∧
      (∃ k, k ≤ rows.length ∧ (∀ outcome, result = .ok outcome → outcome.delivered = k) ∧
        (R.state n).deeds =
          (rows.take k).map .handed ++ [.effect .finishInput, .effect (.resolve result)]) ∧
      ∀ m, n ≤ m → (R.state m).deeds = (R.state n).deeds := by
  constructor
  · intro n hgoing
    obtain ⟨begun, ht, -⟩ := told R n
    obtain ⟨k, hk⟩ := ht.going hgoing
    rw [finishedCalls, hk]
    refine ⟨countP_isFinish_handed _, ?_⟩
    intro result hr
    obtain ⟨row, -, hne⟩ := List.mem_map.mp hr
    cases hne
  · intro n result hend
    obtain ⟨begun, ht, hbegun⟩ := told R n
    obtain rfl : begun = true := hbegun.mpr ⟨b, begins_before_end R hb hend, now, hb⟩
    simp only [Told, hend, true_and, Bool.true_eq_false, false_and, or_false] at ht
    obtain ⟨k, hk, ho, hd⟩ := ht
    rw [handed, rows_eq R n] at hd
    rw [rows_eq R n] at hk
    refine ⟨?_, ⟨k, hk, ho, hd⟩, fun m hnm => (ended_stays R hend hnm).2⟩
    rw [finishedCalls, hd, List.countP_append, countP_isFinish_handed]
    rfl

/-- One row is taken; the task is thrown away while the next one is on offer. -/
def thrownAway : Run next? (armed (.numbered 0) (countRows 3) ⟨⟨5⟩, ⟨5⟩, none⟩) :=
  .ofActions _ _
    [.begin 0, .openGate, .look 1, .next true, .accept, .next true, .refuse true, .lose] (by decide)

theorem finished_once_sample :
    thrownAway.event 0 = some (.begin 0) ∧
      (thrownAway.state 8).session.stage = .ended (.error .taskLost) ∧
      (thrownAway.state 7).finishedCalls = 0 ∧ (thrownAway.state 8).finishedCalls = 1 ∧
      ∃ k, k ≤ (countRows 3).length ∧ (thrownAway.state 8).deeds =
        ((countRows 3).take k).map .handed ++
          [.effect .finishInput, .effect (.resolve (.error .taskLost))] :=
  have hb : thrownAway.event 0 = some (.begin 0) := rfl
  have hall := finished_once thrownAway hb
  have hend := hall.2 8 _ rfl
  ⟨hb, rfl, (hall.1 7 rfl).1, hend.1, hend.2.1.imp fun _ h => ⟨h.1, h.2.2⟩⟩

/-- The task is thrown away before its first turn. -/
def neverBegun : Run next? (armed (.numbered 0) (countRows 3) ⟨⟨5⟩, ⟨5⟩, none⟩) :=
  .ofActions _ _ [.lose] (by decide)

/-- A session that never has a turn ends without telling its input. -/
theorem unfinished_without_turn :
    ¬ ∀ (R : Run next? (armed (.numbered 0) (countRows 3) ⟨⟨5⟩, ⟨5⟩, none⟩)) (n : Nat),
      (R.state n).session.isEnded = true → (R.state n).finishedCalls = 1 := by
  intro h
  have := h neverBegun 1 rfl
  exact absurd this (by decide)

end RowReplay.Course
