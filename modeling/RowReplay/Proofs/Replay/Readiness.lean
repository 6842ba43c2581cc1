import RowReplay.Proofs.Replay.Timed

/-!
What becomes of a session that waits for its gate. The first start, abort or drop of its pipeline
decides, if it comes before the time is over; and a session that gives up has nobody send a row, then
or later.
-/
namespace RowReplay

theorem Course.Told.resolve_iff {c : Course} {begun : Bool} {result : Except ReplayError ReplayOutcome}
    (h : c.Told begun) :
    .effect (.resolve result) ∈ c.deeds ↔ c.session.stage = .ended result := by
  have hhanded : ∀ k, .effect (.resolve result) ∉ c.handed k := by
    intro k hm
    obtain ⟨row, -, hne⟩ := List.mem_map.mp hm
    cases hne
  cases hend : c.session.isEnded with
  | false =>
    obtain ⟨k, hk⟩ := h.going hend
    rw [hk]
    refine ⟨fun hm => (hhanded k hm).elim, fun hs => ?_⟩
    simp [Session.isEnded, hs] at hend
  | true =>
    unfold Session.isEnded at hend
    split at hend
    case h_1 ended hs =>
      simp only [Told, hs] at h
      have hdeeds : .effect (.resolve result) ∈ c.deeds ↔ result = ended := by
        rcases h with ⟨-, k, -, -, hd⟩ | ⟨-, -, hd⟩
        · simp [hd, hhanded k]
        · simp [hd]
      rw [hdeeds, hs, SessionStage.ended.injEq, eq_comm]
    case h_2 => cases hend

/-! What the session hears of its pipeline. -/

/-- Of its producer's shutdown it hears nothing. -/
theorem Session.foldl_hear_shutDown (s : Session) (b : Branch) :
    (Pipeline.shutDownEffects b).foldl hear s = s := by
  rw [Pipeline.shutDownEffects, List.foldl_append, List.foldl_cons]
  generalize b.stages.zipIdx = stages
  induction stages with
  | nil => rfl
  | cons stage stages ih => exact ih

namespace TimedFeed

/-- What the gate becomes when the session first hears of its pipeline. -/
def Action.news? : Action → Option Gate
  | .act .start => some .opened
  | .act .abort | .dropPipeline => some .abandoned
  | _ => none

theorem Action.news?_ne_shut {a : Action} {gate : Gate} (h : a.news? = some gate) : gate ≠ .shut := by
  rintro rfl
  cases a with
  | act action => cases action <;> cases h
  | dropPipeline | pass => cases h

/-- The session's listeners are there, and it has heard nothing. -/
structure Expectant (id : SessionId) (s : TimedFeed) : Prop where
  session : s.feed.course.session.id = id
  listeners : s.feed.pipeline.listeners =
    ⟨[⟨.cacheReplay id, .shutDownProducer⟩], [⟨.cacheReplay id, .openGate id⟩]⟩
  gate : s.gate = .shut

variable {s s' : TimedFeed} {a : Action} {id : SessionId}

theorem expectant_armed (branch : Branch) (capacity : Nat) (id : SessionId) (rows : RowSequence)
    (limits : ReplayLimits) : (armed branch capacity id rows limits).Expectant id where
  session := rfl
  listeners := by
    simp [armed, Feed.armed, Pipeline.arm, Pipeline.fresh, Pipeline.defaultListeners,
      Pipeline.removeMatching, Pipeline.registerOnce, Listeners.removeMatching, Listeners.register,
      Listeners.setPoint, Listeners.atPoint]
  gate := rfl

theorem Expectant.operate_start (h : s.Expectant id) :
    (s.feed.operate Pipeline.start).course.session.gate = .opened := by
  have hg := h.gate
  have hid := h.session
  simp only [TimedFeed.gate] at hg
  have hshut := s.feed.course.session.foldl_hear_shutDown s.feed.pipeline.branch
  simp [Feed.operate, Pipeline.start, Pipeline.fire, Pipeline.actAll, Pipeline.act, h.listeners,
    Listeners.atPoint, Listeners.take, Listeners.setPoint, Session.hear, hshut, hid,
    Session.openGate, hg]

theorem Expectant.operate_forgetListeners (h : s.Expectant id) :
    (s.feed.operate Pipeline.forgetListeners).course.session.gate = .abandoned := by
  have hg := h.gate
  simp only [TimedFeed.gate] at hg
  simp [Feed.operate, Pipeline.forgetListeners, Pipeline.abandonedGates, h.listeners, Session.hear,
    h.session, Session.abandonGate, hg]

/-- The gate goes by what the session hears first. -/
theorem Stepping.news {gate : Gate} (h : s.Stepping a s') (he : s.Expectant id)
    (hn : a.news? = some gate) : s'.gate = gate := by
  cases h with
  | pass => cases hn
  | dropPipeline =>
    cases hn
    exact he.operate_forgetListeners
  | act _ hf =>
    cases hf with
    | start =>
      cases hn
      exact he.operate_start
    | abort =>
      cases hn
      exact he.operate_forgetListeners
    | _ => cases hn

/-- Without news the session goes on to expect some. -/
theorem Stepping.expectant (h : s.Stepping a s') (he : s.Expectant id) (hn : a.news? = none) :
    s'.Expectant id := by
  have hmove : ∀ (f : Feed) {b : Course.Action} {course : Course},
      f.pipeline = s.feed.pipeline → s.feed.course.Moving b course → b ≠ .openGate →
        b ≠ .abandonGate → (TimedFeed.mk (f.follow course) s.now).Expectant id := by
    intro f b course hp hc hopen habandon
    have hgate : course.session.gate = s.feed.course.session.gate := by
      cases hc with
      | openGate => exact (hopen rfl).elim
      | abandonGate => exact (habandon rfl).elim
      | _ => rfl
    exact ⟨hc.same.id.trans he.session, (congrArg Pipeline.listeners hp).trans he.listeners,
      hgate.trans he.gate⟩
  cases h with
  | pass => exact ⟨he.session, he.listeners, he.gate⟩
  | dropPipeline => cases hn
  | act _ hf =>
    cases hf with
    | start | abort => cases hn
    | stop | finishInput | receive | dropOutput | enter | shutOut =>
      exact ⟨he.session, he.listeners, he.gate⟩
    | @offer _ _ _ offer | @review _ _ _ _ offer =>
      cases offer <;> exact ⟨he.session, he.listeners, he.gate⟩
    | begin hc | look hc | next hc | accept _ hc | refuse _ hc => exact hmove _ rfl hc nofun nofun
    | lose hc => exact hmove _ (Feed.pipeline_giveUp s.feed) hc nofun nofun

/-! Whole runs. -/

variable {branch : Branch} {capacity m n : Nat} {rows : RowSequence} {limits : ReplayLimits}

/-- The session hears of its pipeline for the first time. -/
def HearsFirst (R : Run next? (armed branch capacity id rows limits)) (i : Nat) (gate : Gate) : Prop :=
  (∃ a, R.event i = some a ∧ a.news? = some gate) ∧
    ∀ j < i, ∀ a, R.event j = some a → a.news? = none

theorem hears_first (R : Run next? (armed branch capacity id rows limits)) (n : Nat) :
    (∃ i gate, i < n ∧ HearsFirst R i gate) ∨
      ∀ j < n, ∀ a, R.event j = some a → a.news? = none := by
  induction n with
  | zero => exact Or.inr fun j hj => absurd hj (Nat.not_lt_zero j)
  | succ n ih =>
    rcases ih with ⟨i, gate, hi, hfirst⟩ | hnone
    · exact Or.inl ⟨i, gate, by omega, hfirst⟩
    · have hlater : (∀ a, R.event n = some a → a.news? = none) →
          ∀ j < n + 1, ∀ a, R.event j = some a → a.news? = none := by
        intro hn j hj a he
        rcases Nat.lt_succ_iff_lt_or_eq.mp hj with hj | rfl
        · exact hnone j hj a he
        · exact hn a he
      cases he : R.event n with
      | none => exact Or.inr (hlater (by simp [he]))
      | some a =>
        cases hn : a.news? with
        | none => exact Or.inr (hlater (by simp [he, hn]))
        | some gate => exact Or.inl ⟨n, gate, by omega, ⟨a, he, hn⟩, hnone⟩

theorem expectant (R : Run next? (armed branch capacity id rows limits))
    (h : ∀ j < n, ∀ a, R.event j = some a → a.news? = none) : (R.state n).Expectant id := by
  induction n with
  | zero =>
    rw [R.initial]
    exact expectant_armed ..
  | succ n ih =>
    have hn := ih fun j hj => h j (by omega)
    cases he : R.event n with
    | none => rwa [R.pad n he]
    | some a => exact (stepping (R.step n a he)).expectant hn (h n (by omega) a he)

theorem gate_stays (R : Run next? (armed branch capacity id rows limits))
    (hg : (R.state m).gate ≠ .shut) (hmn : m ≤ n) : (R.state n).gate = (R.state m).gate := by
  refine R.stable (P := fun s => s.gate = (R.state m).gate) rfl hmn fun i a _ he hi => ?_
  refine ((stepping (R.step i a he)).gate ?_).trans hi
  rwa [hi]

theorem HearsFirst.gate {R : Run next? (armed branch capacity id rows limits)} {i : Nat} {gate : Gate}
    (h : HearsFirst R i gate) (hin : i < n) : (R.state n).gate = gate := by
  obtain ⟨⟨a, he, hn⟩, hbefore⟩ := h
  have hnext := (stepping (R.step i a he)).news (expectant R hbefore) hn
  rw [gate_stays R (by rw [hnext]; exact Action.news?_ne_shut hn) hin, hnext]

/-- A gate that is not shut any more has become so when the session first heard of its pipeline. -/
theorem hears_of_gate (R : Run next? (armed branch capacity id rows limits))
    (hg : (R.state n).gate ≠ .shut) :
    ∃ i, i < n ∧ HearsFirst R i (R.state n).gate := by
  rcases hears_first R n with ⟨i, gate, hi, hfirst⟩ | hnone
  · refine ⟨i, hi, ?_⟩
    rwa [hfirst.gate hi]
  · exact (hg (expectant R hnone).gate).elim

theorem now_mono (R : Run next? (armed branch capacity id rows limits)) (hmn : m ≤ n) :
    (R.state m).now ≤ (R.state n).now :=
  R.stable (P := fun s => (R.state m).now ≤ s.now) (Nat.le_refl _) hmn
    fun i a _ he hi => Nat.le_trans hi (stepping (R.step i a he)).now_le

theorem sound (R : Run next? (armed branch capacity id rows limits)) (n : Nat) :
    (R.state n).feed.Sound branch (max capacity 1) (.armed id rows limits) :=
  R.invariant (P := fun s => s.feed.Sound branch (max capacity 1) (.armed id rows limits))
    (Feed.sound_armed ..) (fun _ _ _ h hstep => (stepping hstep).sound h) n

theorem settled (R : Run next? (armed branch capacity id rows limits)) (n : Nat) :
    (R.state n).feed.course.session.Settled :=
  R.invariant (P := fun s => s.feed.course.session.Settled) trivial
    (fun _ _ _ h hstep => (stepping hstep).settled h) n

theorem timely (R : Run next? (armed branch capacity id rows limits)) (n : Nat) :
    (R.state n).Timely :=
  R.invariant (P := Timely) (fun _ hs => nomatch hs) (fun _ _ _ h hstep => (stepping hstep).timely h) n

theorem patient (R : Run next? (armed branch capacity id rows limits)) (n : Nat) :
    (R.state n).feed.course.session.Patient :=
  R.invariant (P := fun s => s.feed.course.session.Patient) trivial
    (fun _ _ _ h hstep => (stepping hstep).patient h) n

theorem clock_le (R : Run next? (armed branch capacity id rows limits)) (n : Nat) :
    (R.state n).feed.course.clock ≤ (R.state n).now :=
  R.invariant (P := fun s => s.feed.course.clock ≤ s.now) (Nat.le_refl 0)
    (fun _ _ _ h hstep => (stepping hstep).clock_le h) n

theorem goes_on (R : Run next? (armed branch capacity id rows limits))
    (hgoing : ∀ result, (R.state n).stage ≠ .ended result) :
    ∃ time a, Feed.Action.isOfSession a = true ∧
      ((next? (R.state n) (.pass time)).bind fun later => next? later (.act a)).isSome = true := by
  refine (R.state n).can_go_on (patient R n) (timely R n) (clock_le R n) ?_
  cases hs : (R.state n).stage with
  | ended result => exact (hgoing result hs).elim
  | _ =>
    simp only [stage] at hs
    simp [Session.isEnded, hs]

theorem ended_stays {result : Except ReplayError ReplayOutcome}
    (R : Run next? (armed branch capacity id rows limits))
    (h : (R.state m).stage = .ended result) (hmn : m ≤ n) : (R.state n).stage = .ended result :=
  R.stable (P := fun s => s.stage = .ended result) h hmn
    fun i a _ he hi => (stepping (R.step i a he)).ended hi

/-- The result is there for whoever waits for it. -/
def Resolved (s : TimedFeed) (result : Except ReplayError ReplayOutcome) : Prop :=
  .effect (.resolve result) ∈ s.feed.course.deeds

theorem resolved_iff {result : Except ReplayError ReplayOutcome}
    (R : Run next? (armed branch capacity id rows limits)) (n : Nat) :
    (R.state n).Resolved result ↔ (R.state n).stage = .ended result := by
  obtain ⟨begun, ht⟩ := (sound R n).told
  exact ht.resolve_iff

/-! The wait for the gate. -/

variable {b start : Nat}

theorem waits_until (R : Run next? (armed branch capacity id rows limits))
    (hb : R.event b = some (.act (.begin start))) :
    (R.state b).now = start ∧ (∀ m, m ≤ b → (R.state m).stage = .submitted) ∧
      ∀ n, b < n → (R.state n).stage ≠ .submitted ∧
        ∀ deadline, (R.state n).stage = .waiting deadline →
          deadline = start + limits.readyTimeout.nanos := by
  obtain ⟨hnow, hsub, hwait⟩ := (stepping (R.step b _ hb)).begin_stage
  have hlimits : (R.state b).feed.course.session.limits = limits := (sound R b).same.limits
  rw [hlimits] at hwait
  refine ⟨hnow, fun m hmb => ?_, fun n hbn => ?_⟩
  · by_cases hm : (R.state m).stage = .submitted
    · exact hm
    · exact (R.stable (P := fun s => s.stage ≠ .submitted) hm hmb
        (fun i a _ he hi => (stepping (R.step i a he)).ne_submitted hi) hsub).elim
  · refine R.stable (P := fun s => s.stage ≠ .submitted ∧ ∀ deadline, s.stage = .waiting deadline →
      deadline = start + limits.readyTimeout.nanos) ⟨by simp [hwait], ?_⟩ hbn ?_
    · intro deadline hs
      simpa [hwait] using hs.symm
    · rintro i a - he ⟨hi, hd⟩
      have hstep := stepping (R.step i a he)
      exact ⟨hstep.ne_submitted hi, fun deadline hs => hd deadline (hstep.waits hi hs)⟩

theorem begins {result : Except ReplayError ReplayOutcome}
    (R : Run next? (armed branch capacity id rows limits))
    (hend : (R.state n).stage = .ended result) (hr : result ≠ .error .taskLost) :
    ∃ b start, b < n ∧ R.event b = some (.act (.begin start)) := by
  have hinit : ¬ (R.state 0).stage ≠ .submitted := by
    rw [R.initial]
    exact fun h => h rfl
  obtain ⟨k, a, -, hkn, he, hk, hk'⟩ := R.exists_change (P := fun s => s.stage ≠ .submitted) hinit
    (by simp [hend]) (Nat.zero_le n)
  have hsub : (R.state k).stage = .submitted := Classical.not_not.mp hk
  rcases (stepping (R.step k a he)).begins hsub hk' with rfl | hlost
  · exact ⟨k, _, hkn, he⟩
  · have hstays := ended_stays R hlost hkn
    rw [hend] at hstays
    cases hstays
    exact (hr rfl).elim

/-- Time is over for a session just when it has waited as long as it may. -/
theorem times_out {waited : Span} (R : Run next? (armed branch capacity id rows limits))
    (hb : R.event b = some (.act (.begin start)))
    (hend : (R.state n).stage = .ended (.error (.readinessTimeout waited))) :
    ∃ k, k < n ∧ (R.state k).now = start + limits.readyTimeout.nanos ∧ (R.state k).gate = .shut ∧
      (∀ result, (R.state k).stage ≠ .ended result) ∧
      (R.state (k + 1)).stage = .ended (.error (.readinessTimeout waited)) := by
  obtain ⟨k, a, -, hkn, he, hk, hk'⟩ :=
    R.exists_change (P := fun s => s.stage = .ended (.error (.readinessTimeout waited))) (m := 0)
      (by rw [R.initial]; exact nofun) hend (Nat.zero_le n)
  obtain ⟨hg, deadline, hs, hd⟩ := (stepping (R.step k a he)).times_out hk hk'
  obtain ⟨-, hbefore, hafter⟩ := waits_until R hb
  have hbk : b < k := by
    refine Nat.lt_of_not_le fun hkb => ?_
    rw [hbefore k hkb] at hs
    cases hs
  obtain rfl := (hafter k hbk).2 deadline hs
  exact ⟨k, hkn, Nat.le_antisymm (timely R k _ hs hg) hd, hg, by simp [hs], hk'⟩

/-- A session that hears of its pipeline before it has ended does so in time. -/
theorem HearsFirst.in_time {R : Run next? (armed branch capacity id rows limits)} {i : Nat}
    {gate : Gate} (h : HearsFirst R i gate) (hb : R.event b = some (.act (.begin start)))
    (hi : ∀ result, (R.state i).stage ≠ .ended result) :
    (R.state i).now ≤ start + limits.readyTimeout.nanos := by
  obtain ⟨hnow, -, hafter⟩ := waits_until R hb
  by_cases hbi : b < i
  · have hshut := (expectant R h.2).gate
    have hsettled := settled R i
    obtain ⟨hsub, hwait⟩ := hafter i hbi
    cases hs : (R.state i).stage with
    | submitted => exact (hsub hs).elim
    | waiting deadline =>
      rw [← hwait deadline hs]
      exact timely R i deadline hs hshut
    | delivering | offering =>
      -- Behind its gate the session has heard before.
      simp only [stage] at hs
      simp only [TimedFeed.gate] at hshut
      simp [Session.Settled, hs, hshut] at hsettled
    | ended result => exact (hi result hs).elim
  · have := now_mono R (Nat.le_of_not_lt hbi)
    omega

theorem heard_in_time (R : Run next? (armed branch capacity id rows limits))
    (hb : R.event b = some (.act (.begin start))) (hg : (R.state n).gate ≠ .shut)
    (hi : ∀ i < n, (R.state i).gate = .shut → ∀ result, (R.state i).stage ≠ .ended result) :
    ∃ i gate, HearsFirst R i gate ∧ (R.state i).now ≤ start + limits.readyTimeout.nanos := by
  obtain ⟨i, hin, hfirst⟩ := hears_of_gate R hg
  exact ⟨i, _, hfirst, hfirst.in_time hb (hi i hin (expectant R hfirst.2).gate)⟩

/-- What a session hears in time decides, unless it is lost. -/
theorem HearsFirst.decides {R : Run next? (armed branch capacity id rows limits)} {i : Nat}
    {gate : Gate} {result : Except ReplayError ReplayOutcome} (h : HearsFirst R i gate)
    (hb : R.event b = some (.act (.begin start)))
    (ht : (R.state i).now < start + limits.readyTimeout.nanos)
    (hend : (R.state n).stage = .ended result) (hr : result ≠ .error .taskLost) :
    gate = .opened ∧ (∃ outcome, result = .ok outcome) ∨
      gate = .abandoned ∧ result = .error .readinessAbandoned := by
  have hgate : (R.state n).gate ≠ .shut → (R.state n).gate = gate := by
    intro hg
    refine h.gate (Nat.lt_of_not_le fun hni => hg ?_)
    exact (expectant R fun j hj => h.2 j (by omega)).gate
  have hsettled := settled R n
  simp only [stage] at hend
  simp only [TimedFeed.gate] at hgate
  cases result with
  | ok outcome =>
    simp only [Session.Settled, hend] at hsettled
    exact Or.inl ⟨by rw [← hgate (by simp [hsettled]), hsettled], outcome, rfl⟩
  | error error =>
    cases error with
    | readinessAbandoned =>
      simp only [Session.Settled, hend] at hsettled
      exact Or.inr ⟨by rw [← hgate (by simp [hsettled]), hsettled], rfl⟩
    | readinessTimeout waited =>
      obtain ⟨k, -, hnow, hshut, -⟩ := times_out R hb hend
      have hik : i < k := by
        refine Nat.lt_of_not_le fun hki => ?_
        have := now_mono R hki
        omega
      obtain ⟨a, -, hn⟩ := h.1
      exact (Action.news?_ne_shut hn ((h.gate hik).symm.trans hshut)).elim
    | taskLost => exact (hr rfl).elim

/-- An end for which the gate must not be shut has not come while it was. -/
theorem not_ended_of_shut {result : Except ReplayError ReplayOutcome}
    (R : Run next? (armed branch capacity id rows limits))
    (hend : (R.state n).stage = .ended result)
    (hopen : ∀ s : Session, s.stage = .ended result → s.Settled → s.gate ≠ .shut) (hmn : m ≤ n)
    (hg : (R.state m).gate = .shut) : ∀ result, (R.state m).stage ≠ .ended result := by
  intro ended hs
  have hstays := ended_stays R hs hmn
  rw [hend] at hstays
  cases hstays
  exact hopen _ hs (settled R m) hg

/-- A session that hears nothing in time gives up when its time is over. -/
theorem gives_up {result : Except ReplayError ReplayOutcome}
    (R : Run next? (armed branch capacity id rows limits))
    (hb : R.event b = some (.act (.begin start)))
    (hnone : ∀ i gate, HearsFirst R i gate →
      start + limits.readyTimeout.nanos < (R.state i).now)
    (hend : (R.state n).stage = .ended result) (hr : result ≠ .error .taskLost) :
    result = .error (.readinessTimeout limits.readyTimeout) := by
  -- For an end with the gate not shut there was news while the session waited, so it came in time.
  have hshut : (∀ s : Session, s.stage = .ended result → s.Settled → s.gate ≠ .shut) → False := by
    intro hopen
    obtain ⟨i, gate, hfirst, hnow⟩ := heard_in_time R hb (hopen _ hend (settled R n))
      fun i hin hg => not_ended_of_shut R hend hopen (Nat.le_of_lt hin) hg
    have := hnone i gate hfirst
    omega
  cases result with
  | ok outcome =>
    refine (hshut fun s hs hsettled => ?_).elim
    simp only [Session.Settled, hs] at hsettled
    simp [hsettled]
  | error error =>
    cases error with
    | readinessAbandoned =>
      refine (hshut fun s hs hsettled => ?_).elim
      simp only [Session.Settled, hs] at hsettled
      simp [hsettled]
    | readinessTimeout waited =>
      have hsettled := settled R n
      simp only [stage] at hend
      simp only [Session.Settled, hend] at hsettled
      rw [hsettled, (sound R n).same.limits]
      rfl
    | taskLost => exact (hr rfl).elim

/-- No time passes beyond that of a session that has heard nothing before it gives up. -/
theorem ended_in_time (R : Run next? (armed branch capacity id rows limits))
    (hb : R.event b = some (.act (.begin start)))
    (hnone : ∀ i gate, HearsFirst R i gate →
      start + limits.readyTimeout.nanos < (R.state i).now)
    (hn : start + limits.readyTimeout.nanos < (R.state n).now) :
    ∃ result, (R.state n).stage = .ended result := by
  obtain ⟨hnow, -, hafter⟩ := waits_until R hb
  have hbn : b < n := by
    refine Nat.lt_of_not_le fun hnb => ?_
    have := now_mono R hnb
    omega
  obtain ⟨hsub, hwait⟩ := hafter n hbn
  have hsettled := settled R n
  have hshut : (∀ result, (R.state n).stage ≠ .ended result) → (R.state n).gate = .shut := by
    intro hgoing
    by_cases hg : (R.state n).gate = .shut
    · exact hg
    · obtain ⟨i, gate, hfirst, hin⟩ := heard_in_time R hb hg fun i hin _ result hs =>
        hgoing result (ended_stays R hs (Nat.le_of_lt hin))
      have := hnone i gate hfirst
      omega
  cases hs : (R.state n).stage with
  | submitted => exact (hsub hs).elim
  | waiting deadline =>
    have htimely := timely R n deadline hs (hshut (by simp [hs]))
    rw [hwait deadline hs] at htimely
    omega
  | delivering | offering =>
    have hg := hshut (by simp [hs])
    simp only [stage] at hs
    simp only [TimedFeed.gate] at hg
    simp [Session.Settled, hs, hg] at hsettled
  | ended result => exact ⟨result, rfl⟩

/-! A session that gives up. -/

/-- Nobody has sent a row, and the pipeline's own producer would not. -/
structure NothingSent (branch : Branch) (f : Feed) : Prop where
  sent : f.sent = []
  received : f.received = []
  started : f.pipeline.branch.started = branch.started
  silent : .emitNativeRows ∉ f.pipeline.start.2

theorem Stepping.sent (h : s.Stepping a s') :
    s'.feed.sent = s.feed.sent ∨ s.feed.course.session.IsPastGate := by
  cases h with
  | dropPipeline | pass => exact Or.inl rfl
  | act _ hf =>
    rcases hf.sent with hsame | ⟨-, -, row, ho, -⟩
    · exact Or.inl hsame
    · obtain ⟨d, hd, -⟩ := Session.onOffer?_eq_some ho
      exact Or.inr (by simp [Session.IsPastGate, hd])

theorem Stepping.enter (h : s.Stepping (.act .enter) s') : s.feed.course.session.IsPastGate := by
  cases h with
  | act _ hf =>
    cases hf with
    | enter _ ho =>
      obtain ⟨d, hd, -⟩ := Session.onOffer?_eq_some ho
      simp [Session.IsPastGate, hd]

/-- A session that gives up at its gate has never been past it, and never will be. -/
theorem never_past_gate {error : ReplayError} (R : Run next? (armed branch capacity id rows limits))
    (hend : (R.state n).stage = .ended (.error error)) (hf : error.isReadinessFailure = true)
    (m : Nat) : ¬ (R.state m).feed.course.session.IsPastGate := by
  -- Once past its gate it stays so, and at its end it is not.
  have hnot : ∀ i, n ≤ i → ¬ (R.state i).feed.course.session.IsPastGate := by
    intro i hni hpast
    have hs := ended_stays R hend hni
    simp only [stage] at hs
    cases error with
    | taskLost => cases hf
    | readinessTimeout | readinessAbandoned => simp [Session.IsPastGate, hs] at hpast
  intro hpast
  rcases Nat.le_total n m with hnm | hmn
  · exact hnot m hnm hpast
  · refine hnot n (Nat.le_refl n) ?_
    exact R.stable (P := fun s => s.feed.course.session.IsPastGate) hpast hmn
      fun i a _ he hi => (stepping (R.step i a he)).isPastGate hi

theorem nothing_sent {error : ReplayError} (R : Run next? (armed branch capacity id rows limits))
    (hend : (R.state n).stage = .ended (.error error)) (hf : error.isReadinessFailure = true)
    (m : Nat) : NothingSent branch (R.state m).feed := by
  have hnever := never_past_gate R hend hf
  have hsent : (R.state m).feed.sent = [] := by
    refine R.stable (P := fun s => s.feed.sent = []) (m := 0) (by rw [R.initial]; rfl)
      (Nat.zero_le m) fun i a _ he hi => ?_
    exact ((stepping (R.step i a he)).sent.resolve_right (hnever i)).trans hi
  have hsound := sound R m
  refine ⟨hsent, ?_, hsound.started, ?_⟩
  · have hreceived := hsound.conserved.received
    rw [hsent] at hreceived
    exact List.prefix_nil.mp hreceived
  · exact (hsound.isReplaced.producer_operate .start).2.2

/-- The consumer of a session that gave up is told that no more rows come. -/
theorem at_end {error : ReplayError} (R : Run next? (armed branch capacity id rows limits))
    (hend : (R.state n).stage = .ended (.error error)) (hf : error.isReadinessFailure = true)
    (hnm : n ≤ m) : (R.state m).feed.AtEnd := by
  have hsound := sound R m
  have hnothing := nothing_sent R hend hf m
  have hs := ended_stays R hend hnm
  simp only [stage] at hs
  obtain ⟨begun, ht⟩ := hsound.told
  have hclosed := Feed.closed_of_ended ht hs (by rintro ⟨⟩; cases hf)
  refine ⟨?_, Feed.not_accepting_of_closed hsound.attending hclosed, ?_⟩
  · cases ho : (R.state m).feed.handOff.isOpen with
    | false => exact hsound.conserved.gone ho
    | true =>
      have hpresent := hsound.conserved.present ho
      rw [hnothing.sent] at hpresent
      exact (List.append_eq_nil_iff.mp hpresent).2
  · intro deadline hwait
    rw [hsound.idle (by simp [hs])] at hwait
    cases hwait

/-- For any rows and limits, whatever becomes of the pipeline, and when. A session is lost just when its
task is thrown away or crashes. As long as there is no result the session can go on, at the latest when
its time to wait is over. Any other session that ends has waited for its gate. If the first start,
abort or drop of the pipeline comes before its time is over, that decides: after a start the session
reports, however few rows it delivered, and after the others it is abandoned. If none comes in time,
it gives up, and that just when its time is over. After giving up, no attempt to send a row has been
made or will be, not by the pipeline's own producer either, whenever the pipeline is started; and
the consumer is at the end of its stream. -/
theorem readiness_outcome (R : Run next? (armed branch capacity id rows limits)) :
    (∀ i a, R.event i = some a → (R.state i).Loses a →
      (R.state (i + 1)).Resolved (.error .taskLost)) ∧
    (∀ n, (R.state n).Resolved (.error .taskLost) →
      ∃ i a, i < n ∧ R.event i = some a ∧ (R.state i).Loses a) ∧
    (∀ n, (∀ result, ¬ (R.state n).Resolved result) →
      ∃ time a, Feed.Action.isOfSession a = true ∧
        ((next? (R.state n) (.pass time)).bind fun later => next? later (.act a)).isSome = true) ∧
    (∀ n result, (R.state n).Resolved result → result ≠ .error .taskLost →
      ∃ b start, b < n ∧ R.event b = some (.act (.begin start))) ∧
    (∀ b start, R.event b = some (.act (.begin start)) →
      (∀ i gate, HearsFirst R i gate → (R.state i).now < start + limits.readyTimeout.nanos →
        ∀ n result, (R.state n).Resolved result → result ≠ .error .taskLost →
          gate = .opened ∧ (∃ outcome, result = .ok outcome) ∨
            gate = .abandoned ∧ result = .error .readinessAbandoned) ∧
      ((∀ i gate, HearsFirst R i gate → start + limits.readyTimeout.nanos < (R.state i).now) →
        (∀ n result, (R.state n).Resolved result → result ≠ .error .taskLost →
          result = .error (.readinessTimeout limits.readyTimeout) ∧
            ∃ k, k < n ∧ (R.state k).now = start + limits.readyTimeout.nanos ∧
              (∀ early, ¬ (R.state k).Resolved early) ∧ (R.state (k + 1)).Resolved result) ∧
        ∀ n, start + limits.readyTimeout.nanos < (R.state n).now →
          ∃ result, (R.state n).Resolved result)) ∧
    ∀ n error, (R.state n).Resolved (.error error) → error.isReadinessFailure = true →
      (∀ i, R.event i ≠ some (.act .enter)) ∧
      (∀ m, NothingSent branch (R.state m).feed) ∧ ∀ m, n ≤ m → (R.state m).feed.AtEnd := by
  simp only [resolved_iff R]
  refine ⟨fun i a he hl => (stepping (R.step i a he)).loses hl, ?_, fun n => goes_on R,
    fun n result => begins R, ?_, ?_⟩
  · intro n hend
    obtain ⟨k, a, -, hkn, he, hk, hk'⟩ :=
      R.exists_change (P := fun s => s.stage = .ended (.error .taskLost)) (m := 0)
        (by rw [R.initial]; exact nofun) hend (Nat.zero_le n)
    exact ⟨k, a, hkn, he, (stepping (R.step k a he)).loses_of_lost hk hk'⟩
  · intro b start hb
    refine ⟨fun i gate hfirst ht n result => hfirst.decides hb ht, fun hnone => ⟨?_, ?_⟩⟩
    · intro n result hend hr
      obtain rfl := gives_up R hb hnone hend hr
      obtain ⟨k, hkn, hnow, -, hearly, hend'⟩ := times_out R hb hend
      exact ⟨rfl, k, hkn, hnow, hearly, hend'⟩
    · intro n hn
      exact ended_in_time R hb hnone hn
  · intro n error hend hf
    refine ⟨fun i he => ?_, nothing_sent R hend hf, fun m hnm => at_end R hend hf hnm⟩
    exact never_past_gate R hend hf i (stepping (R.step i _ he)).enter

/-- The pipeline starts while the session waits, and stops before the second of three rows. -/
def startedInTime :
    Run next? (armed (.fresh "service" ["scan"] (countRows 9)) 4 (.numbered 0) (countRows 3)
      ⟨⟨5⟩, ⟨5⟩, none⟩) :=
  .ofActions _ _
    [.act (.begin 0), .pass 4, .act .start, .pass 7, .act (.look 7), .act .next, .act .enter,
      .act (.offer 7), .act .accept, .act .stop, .act .next] (by decide)

/-- The pipeline starts after the session has given up. -/
def startedTooLate :
    Run next? (armed (.fresh "service" ["scan"] (countRows 9)) 4 (.numbered 0) (countRows 3)
      ⟨⟨5⟩, ⟨5⟩, none⟩) :=
  .ofActions _ _ [.act (.begin 0), .pass 5, .act (.look 5), .pass 6, .act .start] (by decide)

theorem readiness_outcome_sample :
    HearsFirst startedInTime 2 .opened ∧ (startedInTime.state 2).now < 0 + 5 ∧
      (startedInTime.state 11).Resolved (.ok ⟨.numbered 0, 1, 3⟩) ∧
      (∀ result, (startedInTime.state 11).Resolved result → result ≠ .error .taskLost →
        ∃ outcome, result = .ok outcome) ∧
      (startedTooLate.state 5).Resolved (.error (.readinessTimeout ⟨5⟩)) ∧
      (∃ k, k < 5 ∧ (startedTooLate.state k).now = 5 ∧
        (startedTooLate.state (k + 1)).Resolved (.error (.readinessTimeout ⟨5⟩))) ∧
      (startedTooLate.state 5).feed.pipeline.running = true ∧
      NothingSent (.fresh "service" ["scan"] (countRows 9)) (startedTooLate.state 5).feed ∧
      (startedTooLate.state 5).feed.AtEnd := by
  have hstart : HearsFirst startedInTime 2 .opened := by
    refine ⟨⟨.act .start, rfl, rfl⟩, fun j hj a he => ?_⟩
    have hmem : a ∈ [.act (.begin 0), .pass 4] := Run.mem_take_of_event hj he
    simp only [List.mem_cons, List.not_mem_nil, or_false] at hmem
    rcases hmem with rfl | rfl <;> rfl
  have hended : (startedInTime.state 11).Resolved (.ok ⟨.numbered 0, 1, 3⟩) :=
    (resolved_iff startedInTime 11).mpr rfl
  obtain ⟨-, -, -, -, hintime, -⟩ := readiness_outcome startedInTime
  have hreport : ∀ result, (startedInTime.state 11).Resolved result →
      result ≠ .error .taskLost → ∃ outcome, result = .ok outcome := by
    intro result hresolved hr
    rcases (hintime 0 0 rfl).1 2 .opened hstart (by decide) 11 result hresolved hr with h | h
    · exact h.2
    · cases h.1
  have hlate : ∀ i gate, HearsFirst startedTooLate i gate → 5 < (startedTooLate.state i).now := by
    rintro i gate ⟨⟨a, he, hn⟩, -⟩
    rcases i with _ | _ | _ | _ | _ | i
    all_goals cases he
    all_goals cases hn
    decide
  have hover : (startedTooLate.state 5).Resolved (.error (.readinessTimeout ⟨5⟩)) :=
    (resolved_iff startedTooLate 5).mpr rfl
  obtain ⟨-, -, -, -, htoolate, hsilent⟩ := readiness_outcome startedTooLate
  obtain ⟨-, k, hk, hnow, -, hresolved⟩ := ((htoolate 0 0 rfl).2 hlate).1 5 _ hover nofun
  obtain ⟨-, hnothing, hlast⟩ := hsilent 5 _ hover rfl
  exact ⟨hstart, by decide, hended, hreport, hover, ⟨k, hk, hnow, hresolved⟩, rfl,
    hnothing 5, hlast 5 (Nat.le_refl 5)⟩

end TimedFeed

end RowReplay
