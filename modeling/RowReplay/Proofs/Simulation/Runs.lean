import RowReplay.Proofs.Cache.SingleFlight
import RowReplay.Proofs.Replay.Closing
import RowReplay.Proofs.Simulation.Loads

/-!
Whatever a simulation does, its cache stays in a state that the steps of the cache can reach, and
its sessions where their courses can lead them.
-/
namespace RowReplay.Simulation

open Cache (Reachable)
open Std.Do

set_option mvcgen.warning false

variable {policy : FreshnessPolicy} {a : Assertion} {w w' : World}

/-- Nothing but the link is asserted. -/
def Assertion.IsLink (a : Assertion) (policy : FreshnessPolicy) : Prop :=
  a = linkedAt policy a.time fun _ => True

theorem Assertion.IsLink.holds_iff (ha : a.IsLink policy) :
    a.holds w ↔ Linked policy w ∧ w.agenda.now = a.time := by
  rw [ha]
  simp [linkedAt]

theorem drive_keeps (ha : a.IsLink policy) (g : Nat) (party : Party) (place : Option Nat) :
    Keeps a (drive g party place) := by
  have hfact : Apart g fun _ => True := ⟨fun _ _ => trivial, fun _ _ => trivial⟩
  have hdrive := fun fuel => driveLoad_spec policy a.time fuel party place hfact
  rw [← show a = _ from ha] at hdrive
  mvcgen [drive, hdrive]
  case vc2 => exact fun h _ => h

theorem loadTurn_keeps (ha : a.IsLink policy) (g : Nat) : Keeps a (loadTurn g) := by
  have hdrive := drive_keeps ha
  mvcgen [loadTurn, hdrive, modifyWork_keeps]
  case vc3 => exact fun _ _ _ => trivial

theorem awaitLoad_keeps (ha : a.IsLink policy) (n : Nat) (request : Request) (g : Nat)
    (place : Option Nat) : Keeps a (awaitLoad n request g place) := by
  have hdrive := drive_keeps ha
  mvcgen [awaitLoad, hdrive]

/-- A request decides, and a load that it registers is given its work. -/
theorem Linked.asked (h : Linked policy w) {k : Key}
    (hc : w'.cache = (w.cache.request k w.reading).1)
    (hw : w'.works = w.works ++
      ((w.cache.request k w.reading).2.2.map fun _ => LoadWork.fresh).toList)
    (ha : w'.agenda = w.agenda) (hs : w'.sessions = w.sessions) : Linked policy w' := by
  have hreg := Cache.registering w.cache k w.reading
  have hread : w'.reading = w.reading := reading_eq (congrArg Agenda.now ha)
  constructor
  · rw [ha]
    exact h.timers
  · obtain ⟨clock, callers, hreach, hclock⟩ := h.reachable
    rw [hc, hread]
    exact ⟨w.reading, _, hreach.step (.get hclock), Nat.le_refl _⟩
  · rw [hc, hw]
    generalize (w.cache.request k w.reading).1 = c at hreg
    generalize (w.cache.request k w.reading).2.2 = started at hreg
    cases hreg with
    | nothing => simpa using h.works
    | load => simp [Cache.register, h.works]
  · intro g hg
    rcases Nat.lt_or_ge g w.works.length with hlt | hge
    · rw [hc, Cache.phaseOf_request (by rwa [← h.works]), ← h.running g hlt]
      simp only [runningOf, hw, List.getElem?_append_left hlt]
    · simp only [runningOf, hw, hc] at hg ⊢
      generalize (w.cache.request k w.reading).1 = c at hreg
      generalize (w.cache.request k w.reading).2.2 = started at hreg hg
      cases hreg with
      | nothing => exact absurd hg (by simpa using hge)
      | load =>
        obtain rfl : g = w.works.length := by
          simp only [Option.map_some, Option.toList_some, List.length_append,
            List.length_singleton] at hg
          omega
        simp [LoadWork.fresh, h.works, Cache.register, Cache.phaseOf]
  · exact h.sessions.congr hs (by rw [ha])

theorem Assertion.IsLink.asked (ha : a.IsLink policy) (h : a.holds w) {k : Key}
    (hc : w'.cache = (w.cache.request k w.reading).1)
    (hw : w'.works = w.works ++
      ((w.cache.request k w.reading).2.2.map fun _ => LoadWork.fresh).toList)
    (hg : w'.agenda = w.agenda) (hs : w'.sessions = w.sessions) : a.holds w' := by
  rw [ha.holds_iff] at h ⊢
  exact ⟨h.1.asked hc hw hg hs, by rw [hg, h.2]⟩

theorem requestTurn_keeps (ha : a.IsLink policy) (n : Nat) : Keeps a (requestTurn n) := by
  have hawait := awaitLoad_keeps ha
  mvcgen [requestTurn, hawait]
  case vc3 =>
    rename a.holds _ => h
    rename _ = some (_ : Nat) => hs
    exact ha.asked h rfl (by rw [hs]; rfl) rfl rfl
  -- No load was registered.
  all_goals
    rename a.holds _ => h
    rename ∀ _, _ → False => hnone
    rename _ = (_ : Option Nat) => hs
    rw [← hs] at hnone
    refine ha.asked h rfl ?_ rfl rfl
    simp [Option.eq_none_iff_forall_ne_some.mpr hnone]

theorem takeTurn_keeps (ha : a.IsLink policy) (t : Task) : Keeps a (takeTurn t) := by
  cases t with
  | request n => exact requestTurn_keeps ha n
  | load g => exact loadTurn_keeps ha g
  | session r => exact sessionTurn_keeps r
  | put n => exact putTurn_keeps n
  | producer p => exact emitRows_keeps p _
  | consumer p => exact consume_keeps p _

/-! The clock. -/

theorem quiet_beginTurn {t : Task} {agenda : Agenda} (h : w.agenda.beginTurn = some (t, agenda)) :
    Quiet w { w with agenda } := by
  unfold Agenda.beginTurn at h
  split at h
  case h_1 => cases h
  case h_2 =>
    cases h
    exact .ofAgenda rfl fun t => Or.inl

theorem quiet_endTurn (w : World) : Quiet w { w with agenda := w.agenda.endTurn } := by
  refine .ofAgenda ?_ fun t ht => Or.inl ?_
  · unfold Agenda.endTurn
    repeat' split
    all_goals simp [now_wake]
  · unfold Agenda.endTurn at ht
    split at ht
    case h_1 =>
      split at ht
      · rwa [timers_wake] at ht
      · exact ht
    case h_2 => exact ht

theorem settleFor_keeps (ha : a.IsLink policy) (fuel : Nat) : Keeps a (settleFor fuel) := by
  have hturn := takeTurn_keeps ha
  induction fuel with
  | zero => mvcgen [settleFor]
  | succ fuel ih =>
    mvcgen [settleFor, hturn, modifyAgenda, ih]
    case vc2 h _ _ hb => exact a.quiet h (quiet_beginTurn hb)
    case vc3 h _ => exact a.quiet h (quiet_endTurn _)

theorem settle_keeps (ha : a.IsLink policy) : Keeps a settle := settleFor_keeps ha roundBound

/-- The clock goes on, and the timers that are due are taken out. -/
theorem Linked.later {time : Nat} (h : Linked policy w) (ht : w.agenda.now ≤ time) :
    Linked policy { w with agenda := (w.agenda.moveTo time).1 } := by
  constructor
  · intro t hm
    have hdue : time < t.due := by simpa using (List.mem_filter.mp hm).2
    exact Nat.le_of_lt hdue
  · obtain ⟨clock, callers, hreach, hclock⟩ := h.reachable
    exact ⟨clock, callers, hreach, hclock.trans (Nat.mul_le_mul_right _ ht)⟩
  · exact h.works
  · exact h.running
  · exact h.sessions.congr rfl ht

theorem moveClock_spec (policy : FreshnessPolicy) (time : Nat) :
    ⦃fun w => ⌜Linked policy w ∧ w.agenda.now ≤ time⌝⦄ moveClock time
    ⦃⇓ _ w => ⌜Linked policy w ∧ w.agenda.now = time⌝⦄ := by
  obtain ⟨a, ha⟩ : ∃ a, a = linkedAt policy time fun _ => True := ⟨_, rfl⟩
  mvcgen [moveClock, keeps_forM]
  case vc3 h =>
    subst ha
    exact ⟨h.1.later h.2, rfl, trivial⟩
  case vc4 =>
    subst ha
    exact fun h => ⟨h.1, h.2.1⟩

/-- What keeps the link at every time keeps the link, and the time. -/
theorem spec_of_keeps (policy : FreshnessPolicy) {α : Type} {c : Sim α}
    (h : ∀ a : Assertion, a.IsLink policy → Keeps a c) (limit : Nat) :
    ⦃fun w => ⌜Linked policy w ∧ w.agenda.now ≤ limit⌝⦄ c
    ⦃⇓ _ w => ⌜Linked policy w ∧ w.agenda.now ≤ limit⌝⦄ := by
  apply triple_of_forall
  intro w hw
  obtain ⟨a, ha⟩ : ∃ a, a = linkedAt policy w.agenda.now fun _ => True := ⟨_, rfl⟩
  have hkeeps := h a (by rw [ha]; rfl)
  mvcgen [hkeeps]
  case vc1 h =>
    subst ha h
    exact ⟨hw.1, rfl, trivial⟩
  case vc2 =>
    subst ha
    exact fun h => ⟨h.1, h.2.1.le.trans hw.2⟩

theorem le_nextDue? {agenda : Agenda} {limit due : Nat}
    (h : ∀ t ∈ agenda.timers, agenda.now ≤ t.due) (hd : agenda.nextDue? limit = some due) :
    agenda.now ≤ due ∧ due ≤ limit := by
  obtain ⟨hmin, hle⟩ := Option.filter_eq_some_iff.mp hd
  obtain ⟨t, ht, rfl⟩ := List.mem_map.mp (List.min?_mem hmin)
  exact ⟨h t ht, by simpa using hle⟩

theorem passTime_spec (policy : FreshnessPolicy) (limit fuel : Nat) :
    ⦃fun w => ⌜Linked policy w ∧ w.agenda.now ≤ limit⌝⦄ passTime limit fuel
    ⦃⇓ _ w => ⌜Linked policy w ∧ w.agenda.now ≤ limit⌝⦄ := by
  have hsettle := spec_of_keeps policy (fun _ => settle_keeps) limit
  have hclock := moveClock_spec policy
  induction fuel with
  | zero => mvcgen [passTime]
  | succ fuel ih =>
    mvcgen [passTime, hsettle, hclock, ih]
    case vc1 h _ hd => exact ⟨h.1, (le_nextDue? h.1.timers hd).1⟩
    case vc2 h _ hd _ _ ht =>
      refine ⟨ht.1, ?_⟩
      rw [ht.2]
      exact (le_nextDue? h.1.timers hd).2
    case vc5 => exact fun h ht => ⟨h, ht.le⟩

theorem linked_of_keeps (policy : FreshnessPolicy) {α : Type} {c : Sim α}
    (h : ∀ a : Assertion, a.IsLink policy → Keeps a c) :
    ⦃fun w => ⌜Linked policy w⌝⦄ c ⦃⇓ _ w => ⌜Linked policy w⌝⦄ := by
  apply triple_of_forall
  intro w hw
  have hkeeps := spec_of_keeps policy h w.agenda.now
  mvcgen [hkeeps]
  case vc1 h => exact ⟨h ▸ hw, h ▸ Nat.le_refl _⟩
  case vc2 => exact fun h _ => h

theorem settle_spec (policy : FreshnessPolicy) :
    ⦃fun w => ⌜Linked policy w⌝⦄ settle ⦃⇓ _ w => ⌜Linked policy w⌝⦄ :=
  linked_of_keeps policy fun _ => settle_keeps

/-! The steps of a scenario. -/

theorem receiveNow_keeps (ha : a.IsLink policy) (p n : Nat) (rows : RowSequence) :
    Keeps a (receiveNow p n rows) := by
  have hsettle := settle_keeps ha
  induction n generalizing rows with
  | zero => mvcgen [receiveNow]
  | succ n ih => mvcgen [receiveNow, hsettle, ih, hasSenders]

theorem performOn_keeps (ha : a.IsLink policy) (p : Nat) (pipe : Pipe) (s : PipeStep) :
    Keeps a (performOn p pipe s) := by
  have hreceive := receiveNow_keeps ha
  cases s with
  | put =>
    mvcgen [performOn]
    case vc1 h => exact a.quiet h (.sameWorks rfl rfl rfl rfl)
  | _ => mvcgen [performOn, hreceive]

/-- A step of the cache that does not touch its loads. -/
theorem Linked.invalidated (h : Linked policy w) {c : Cache Key Loaded}
    {action : Cache.Action Key Loaded} (hc : w'.cache = c) (hl : c.loads = w.cache.loads)
    (hstep : ∀ clock callers, Cache.Step ⟨w.cache, clock, callers⟩ action ⟨c, clock, callers⟩)
    (hw : w'.works = w.works) (ha : w'.agenda = w.agenda) (hs : w'.sessions = w.sessions) :
    Linked policy w' := by
  subst hc
  constructor
  · rw [ha]
    exact h.timers
  · obtain ⟨clock, callers, hreach, hclock⟩ := h.reachable
    rw [reading_eq (congrArg Agenda.now ha)]
    exact ⟨clock, callers, hreach.step (hstep clock callers), hclock⟩
  · rw [hw, hl, h.works]
  · simp only [runningOf, Cache.phaseOf, hw, hl]
    exact h.running
  · exact h.sessions.congr hs (by rw [ha])

theorem perform_pipe_keeps (ha : a.IsLink policy) (p : Nat) (step : PipeStep) :
    Keeps a (perform (.pipe p step)) := by
  have hon := performOn_keeps ha
  mvcgen [perform, hon]

theorem perform_spec (policy : FreshnessPolicy) (s : Step) :
    ⦃fun w => ⌜Linked policy w⌝⦄ perform s ⦃⇓ _ w => ⌜Linked policy w⌝⦄ := by
  cases s with
  | advance millis =>
    have hsettle := settle_spec policy
    have hpass := passTime_spec policy
    mvcgen [perform, hsettle, now, hpass]
    case vc2 h _ => exact ⟨h, Nat.le_add_right ..⟩
    case vc3 h => exact h.1
  | invalidate key =>
    mvcgen [perform]
    case vc1 h _ => exact h.invalidated rfl rfl (fun _ _ => .invalidate) rfl rfl rfl
  | invalidateAll =>
    mvcgen [perform]
    case vc1 h _ => exact h.invalidated rfl rfl (fun _ _ => .invalidateAll) rfl rfl rfl
  | pipe p step => exact linked_of_keeps policy fun _ ha => perform_pipe_keeps ha p step
  | _ =>
    apply linked_of_keeps
    intro a ha
    mvcgen [perform]

theorem step_spec (policy : FreshnessPolicy) (s : Step) :
    ⦃fun w => ⌜Linked policy w⌝⦄ step s ⦃⇓ _ w => ⌜Linked policy w⌝⦄ := by
  have hperform := perform_spec policy s
  have hsettle := settle_spec policy
  mvcgen [step, hperform, hsettle]
  case vc1 h _ =>
    refine h.quiet ?_
    exact .sameWorks rfl rfl rfl rfl

theorem run_spec (policy : FreshnessPolicy) (steps : List Step) :
    ⦃fun w => ⌜Linked policy w⌝⦄ run steps ⦃⇓ _ w => ⌜Linked policy w⌝⦄ := by
  have hstep := step_spec policy
  unfold run
  induction steps with
  | nil => mvcgen
  | cons s steps ih =>
    rw [List.mapM_cons]
    mvcgen [hstep, ih]

theorem Scenario.linked (s : Scenario) : Linked s.policy s.world where
  timers := by simp [Scenario.world, Agenda.empty]
  reachable := ⟨⟨0, 0⟩, [], .initial, Nat.zero_le _⟩
  works := rfl
  running := by simp [Scenario.world]
  sessions := by simp [OnCourse, Scenario.world]

theorem Scenario.linked_run (s : Scenario) (steps : List Step) :
    Linked s.policy ((run steps).run s.world).2 := run_spec s.policy steps s.world s.linked

/-- Whatever steps a scenario takes, its cache is as it is somewhere in a run of the cache. -/
theorem Scenario.execution (s : Scenario) (steps : List Step) :
    ∃ (E : Cache.Execution Key Loaded s.policy) (n : Nat),
      (E.state n).cache = ((run steps).run s.world).2.cache := by
  obtain ⟨clock, callers, hreach, -⟩ := (s.linked_run steps).reachable
  obtain ⟨E, n, hE⟩ := hreach.execution
  exact ⟨E, n, by rw [hE]⟩

/-- Whatever steps a scenario takes, at most one call of its loader runs for each key. -/
theorem Scenario.callsUnderWay_le_one (s : Scenario) (steps : List Step) (k : Key) :
    ((run steps).run s.world).2.cache.callsUnderWay k ≤ 1 := by
  obtain ⟨clock, callers, hreach, -⟩ := (s.linked_run steps).reachable
  exact hreach.chained.callsUnderWay_le_one k

variable {r : Nat} {task : SessionTask}

/-- Whatever steps a scenario takes, each of its sessions is as it is somewhere in a run of its
course. -/
theorem Scenario.course (s : Scenario) (steps : List Step)
    (h : ((run steps).run s.world).2.sessions.get? r = some task) :
    ∃ (id : SessionId) (rows : RowSequence) (limits : ReplayLimits)
      (R : Run Course.next? (.armed id rows limits)) (n : Nat),
      (R.state n).session = task.session := by
  obtain ⟨id, rows, limits, c, hreaches, hc, -⟩ := (s.linked_run steps).sessions r task h
  obtain ⟨R, n, hR⟩ := hreaches.run
  exact ⟨id, rows, limits, R, n, by rw [hR, hc]⟩

/-- Whatever steps a scenario takes, none of its sessions reports more rows than it was given. -/
theorem Scenario.delivered_le (s : Scenario) (steps : List Step)
    (h : ((run steps).run s.world).2.sessions.get? r = some task) {outcome : ReplayOutcome}
    (hend : task.session.stage = .ended (.ok outcome)) :
    outcome.delivered ≤ task.session.rows.length := by
  obtain ⟨id, rows, limits, R, n, hR⟩ := s.course steps h
  obtain ⟨begun, htold, -⟩ := Course.told R n
  simp only [Course.Told, hR, hend, reduceCtorEq, false_and, and_false, or_false] at htold
  obtain ⟨-, k, hk, ho, -⟩ := htold
  rw [ho outcome rfl, ← hR]
  exact hk

end RowReplay.Simulation
