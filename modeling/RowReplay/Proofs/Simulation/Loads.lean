import RowReplay.Proofs.Cache.Chain
import RowReplay.Proofs.Simulation.Quiet

/-!
Driving loads takes steps of the cache. The link between a simulation and those steps: the cache is
in a state that steps can reach, on a clock that has not passed the present, and a call of the
loader has begun for exactly the loads that are not queued. Sessions are on their courses all along.
-/
namespace RowReplay.Simulation

open Cache (Reachable)
open Std.Do

set_option mvcgen.warning false

structure Linked (policy : FreshnessPolicy) (w : World) : Prop where
  timers : ∀ t ∈ w.agenda.timers, w.agenda.now ≤ t.due
  reachable : ∃ clock callers, Reachable policy ⟨w.cache, clock, callers⟩ ∧
    clock.elapsed ≤ w.reading.elapsed
  works : w.works.length = w.cache.loads.length
  running : ∀ g, g < w.works.length → (runningOf w g = none ↔ w.cache.phaseOf g = some .queued)
  sessions : OnCourse w

variable {policy : FreshnessPolicy} {time : Nat} {fact : Cache Key Loaded → Prop} {w w' : World}

theorem reading_eq (h : w'.agenda.now = w.agenda.now) : w'.reading = w.reading := by
  rw [World.reading, World.reading, h]

theorem Linked.quiet (h : Linked policy w) (hq : Quiet w w') : Linked policy w' := by
  constructor
  · intro t ht
    rw [hq.now]
    exact (hq.timers t ht).elim (h.timers t) id
  · rw [hq.cache, reading_eq hq.now]
    exact h.reachable
  · rw [hq.cache, hq.works, h.works]
  · intro g hg
    rw [hq.cache, hq.running]
    rw [hq.works] at hg
    exact h.running g hg
  · exact hq.sessions h.sessions

/-- The link holds at a time, and so does a fact about the cache. -/
def linkedAt (policy : FreshnessPolicy) (time : Nat) (fact : Cache Key Loaded → Prop) :
    Assertion where
  time := time
  holds w := Linked policy w ∧ w.agenda.now = time ∧ fact w.cache
  now h := h.2.1
  onCourse h := h.1.sessions
  quiet h hq := ⟨h.1.quiet hq, hq.now.trans h.2.1, by rw [hq.cache]; exact h.2.2⟩

/-- The fact does not concern loads up to this one. -/
structure Apart (g : Nat) (fact : Cache Key Loaded → Prop) : Prop where
  begin : ∀ {c j}, j ≤ g → fact c → fact (c.begin j)
  complete : ∀ {c k j time result}, j ≤ g → fact c → fact (c.complete k j time result)

/-- The loader is called for a load that is ready. -/
theorem Linked.begun {g : Nat} {load : Load Key Loaded} {call : RunningCall} (h : Linked policy w)
    (hl : w.cache.loads[g]? = some load) (hq : load.phase = .queued)
    (hr : w.cache.isReady load = true) (hc : w'.cache = w.cache.begin g)
    (hw : w'.works = w.works.modify g fun work => { work with running := some call })
    (hn : w'.agenda.now = w.agenda.now)
    (ht : ∀ t ∈ w'.agenda.timers, t ∈ w.agenda.timers ∨ w.agenda.now ≤ t.due)
    (hs : w'.sessions = w.sessions) : Linked policy w' := by
  constructor
  · intro t hm
    rw [hn]
    exact (ht t hm).elim (h.timers t) id
  · obtain ⟨clock, callers, hreach, hclock⟩ := h.reachable
    rw [hc, reading_eq hn]
    exact ⟨clock, callers, hreach.step (.begin hl hq hr), hclock⟩
  · rw [hc, hw, List.length_modify, h.works]
    simp [Cache.begin]
  · intro j hj
    rw [hw, List.length_modify] at hj
    have hph := (Cache.lookups hl).2.2
    simp only [runningOf, hc, hw, List.getElem?_modify, Cache.begin, Cache.phaseOf_setPhase]
    by_cases hg : g = j
    · subst j
      simp [List.getElem?_eq_getElem hj, hph]
    · have := h.running j hj
      simp only [runningOf] at this
      simp [hg, Ne.symm hg, this]
  · exact h.sessions.congr hs hn.ge

/-- The loader answers, and the load completes. -/
theorem Linked.completed {g : Nat} {load : Load Key Loaded} {result : LoadResult Loaded}
    (h : Linked policy w) (hl : w.cache.loads[g]? = some load) (hr : load.phase = .running)
    (hc : w'.cache = w.cache.complete load.key g w.reading result) (hw : w'.works = w.works)
    (hn : w'.agenda.now = w.agenda.now)
    (ht : ∀ t ∈ w'.agenda.timers, t ∈ w.agenda.timers) (hs : w'.sessions = w.sessions) :
    Linked policy w' := by
  constructor
  · intro t hm
    rw [hn]
    exact h.timers t (ht t hm)
  · obtain ⟨clock, callers, hreach, hclock⟩ := h.reachable
    rw [hc, reading_eq hn]
    exact ⟨w.reading, callers, hreach.step (.finish hl hr hclock), Nat.le_refl _⟩
  · rw [hc, hw, Cache.length_loads_complete, h.works]
  · intro j hj
    rw [hw] at hj
    have hph := (Cache.lookups hl).2.2
    have hrun := h.running j hj
    simp only [runningOf, hc, hw, Cache.phaseOf_complete] at hrun ⊢
    by_cases hg : j = g
    · subst j
      simp [hph, hr] at hrun ⊢
      exact hrun
    · simpa [hg] using hrun
  · exact h.sessions.congr hs hn.ge

theorem linkedAt_begun {g : Nat} {load : Load Key Loaded} {call : RunningCall}
    (h : (linkedAt policy time fact).holds w) (hfact : Apart g fact)
    (hl : w.cache.loads[g]? = some load) (hq : load.phase = .queued)
    (hr : w.cache.isReady load = true) (hc : w'.cache = w.cache.begin g)
    (hw : w'.works = w.works.modify g fun work => { work with running := some call })
    (hn : w'.agenda.now = w.agenda.now)
    (ht : ∀ t ∈ w'.agenda.timers, t ∈ w.agenda.timers ∨ w.agenda.now ≤ t.due)
    (hs : w'.sessions = w.sessions) :
    (linkedAt policy time fact).holds w' ∧ w'.cache.keyOf g = some load.key ∧
      w'.cache.phaseOf g = some .running := by
  obtain ⟨hk, -, hph⟩ := Cache.lookups hl
  refine ⟨⟨h.1.begun hl hq hr hc hw hn ht hs, hn.trans h.2.1, ?_⟩, ?_, ?_⟩
  · rw [hc]
    exact hfact.begin (Nat.le_refl g) h.2.2
  · rw [hc, Cache.keyOf_begin, hk]
  · simp [hc, Cache.begin, hph]

theorem beginCall_spec (policy : FreshnessPolicy) (time : Nat) {g : Nat} {k : Key}
    (hfact : Apart g fact) :
    ⦃fun w => ⌜(linkedAt policy time fact).holds w ∧ ∃ load, w.cache.loads[g]? = some load ∧
      load.key = k ∧ load.phase = .queued ∧ w.cache.isReady load = true⌝⦄
    beginCall g k
    ⦃⇓ _ w => ⌜(linkedAt policy time fact).holds w ∧ w.cache.keyOf g = some k ∧
      w.cache.phaseOf g = some .running⌝⦄ := by
  mvcgen [beginCall, modifyCache, modifyWork, modifyAgenda, -setTimer_keeps]
  case vc1 =>
    rename _ ∧ _ => h
    obtain ⟨h, load, hl, rfl, hq, hr⟩ := h
    refine linkedAt_begun h hfact hl hq hr rfl rfl rfl ?_ rfl
    intro t ht
    rcases List.mem_append.mp ht with ht | ht
    · exact Or.inl ht
    · cases List.mem_singleton.mp ht
      exact Or.inr (Nat.le_add_right ..)
  case vc2 =>
    rename _ ∧ _ => h
    obtain ⟨h, load, hl, rfl, hq, hr⟩ := h
    exact linkedAt_begun h hfact hl hq hr rfl rfl rfl (fun t => Or.inl) rfl

theorem completeCall_spec (policy : FreshnessPolicy) (time : Nat) {g : Nat} {k : Key}
    {r : RunningCall} (hfact : Apart g fact) :
    ⦃fun w => ⌜(linkedAt policy time fact).holds w ∧ w.cache.keyOf g = some k ∧
      w.cache.phaseOf g = some .running⌝⦄
    completeCall g k r
    ⦃⇓ _ w => ⌜(linkedAt policy time fact).holds w ∧ w.cache.Finished g⌝⦄ := by
  obtain ⟨a, ha⟩ : ∃ a, a = linkedAt policy time fun c => fact c ∧ c.Finished g := ⟨_, rfl⟩
  mvcgen [completeCall]
  case vc2 =>
    rename _ ∧ _ => h
    obtain ⟨h, hk, hph⟩ := h
    obtain ⟨load, hl, rfl⟩ := Option.map_eq_some_iff.mp hk
    have hr : load.phase = .running := by simpa [Cache.phaseOf, hl] using hph
    subst ha
    refine ⟨h.1.completed hl hr rfl rfl rfl ?_ rfl, h.2.1, ?_, ?_⟩
    · exact fun t ht => List.mem_of_mem_filter ht
    · exact hfact.complete (Nat.le_refl g) h.2.2
    · exact (Cache.finished_complete hph).mpr (Or.inr rfl)
  case vc3 w _ =>
    subst ha
    intro h
    exact ⟨⟨h.1, h.2.1, h.2.2.1⟩, h.2.2.2⟩

theorem Apart.behind {p g : Nat} (h : Apart g fact) (hp : p < g) (load : Load Key Loaded) :
    Apart p fun c => fact c ∧ c.loads[g]? = some load where
  begin hj hc := by
    refine ⟨h.begin (by omega) hc.1, ?_⟩
    simp [Cache.begin, Cache.setPhase, hc.2, show ∀ j, j ≤ p → j ≠ g by omega, hj]
  complete hj hc := by
    refine ⟨h.complete (by omega) hc.1, ?_⟩
    simp [Cache.complete, Cache.setPhase, hc.2, show ∀ j, j ≤ p → j ≠ g by omega, hj]

theorem Linked.older {g p : Nat} {load : Load Key Loaded} (h : Linked policy w)
    (hl : w.cache.loads[g]? = some load) (hp : load.predecessor = some p) : p < g := by
  obtain ⟨clock, callers, hreach, -⟩ := h.reachable
  apply hreach.chained.older g p
  rw [(Cache.lookups hl).2.1, hp]

theorem Linked.lt_works {g : Nat} {load : Load Key Loaded} (h : Linked policy w)
    (hl : w.cache.loads[g]? = some load) : g < w.works.length := by
  rw [h.works]
  exact (List.getElem?_eq_some_iff.mp hl).1

/-- No call has begun for a load: it is queued. -/
theorem Linked.queued {g : Nat} {load : Load Key Loaded} (h : Linked policy w)
    (hl : w.cache.loads[g]? = some load) (hr : runningOf w g = none) : load.phase = .queued := by
  have hph := (h.running g (h.lt_works hl)).mp hr
  simpa [Cache.phaseOf, hl] using hph

/-- A call has begun for a load that has not finished: it runs. -/
theorem Linked.underWay {g : Nat} {load : Load Key Loaded} {call : RunningCall}
    (h : Linked policy w) (hl : w.cache.loads[g]? = some load) (hr : runningOf w g = some call)
    (hf : ∀ entry, load.phase ≠ .finished entry) : load.phase = .running := by
  have hq : load.phase ≠ .queued := by
    intro hq
    have hnone := (h.running g (h.lt_works hl)).mpr (by simp [Cache.phaseOf, hl, hq])
    rw [hr] at hnone
    cases hnone
  cases hph : load.phase with
  | queued => exact (hq hph).elim
  | running => rfl
  | finished entry => exact (hf entry hph).elim

/-- A load that no call has begun for is ready once its predecessor has finished. -/
theorem linkedAt_idle {g : Nat} {load : Load Key Loaded}
    (h : (linkedAt policy time fact).holds w ∧ w.cache.loads[g]? = some load)
    (hr : runningOf w g = none) (hp : ∀ p, load.predecessor = some p → w.cache.Finished p) :
    (linkedAt policy time fact).holds w ∧ ∃ l, w.cache.loads[g]? = some l ∧
      l.key = load.key ∧ l.phase = .queued ∧ w.cache.isReady l = true :=
  ⟨h.1, load, h.2, rfl, h.1.1.queued h.2 hr, Cache.isReady_iff.mpr hp⟩

theorem linkedAt_busy {g : Nat} {load : Load Key Loaded} {call : RunningCall}
    (h : (linkedAt policy time fact).holds w ∧ w.cache.loads[g]? = some load)
    (hr : runningOf w g = some call) (hf : ∀ entry, load.phase ≠ .finished entry) :
    (linkedAt policy time fact).holds w ∧ w.cache.keyOf g = some load.key ∧
      w.cache.phaseOf g = some .running := by
  obtain ⟨hk, -, hph⟩ := Cache.lookups h.2
  exact ⟨h.1, hk, by rw [hph, h.1.1.underWay h.2 hr hf]⟩

/-- A triple speaks of each world for itself. -/
theorem triple_of_forall {α : Type} {c : Sim α} {P : World → Prop} {Q : α → World → Prop}
    (h : ∀ w, P w → ⦃fun v => ⌜v = w⌝⦄ c ⦃⇓ r v => ⌜Q r v⌝⦄) :
    ⦃fun w => ⌜P w⌝⦄ c ⦃⇓ r w => ⌜Q r w⌝⦄ := by
  intro w hw
  exact h w hw w rfl

/-- A load that is there is driven, if its predecessor can be. -/
theorem driveLoad_found {a : Assertion} {fuel g : Nat} {load : Load Key Loaded} (party : Party)
    (place : Option Nat) (hfact : Apart g fact)
    (ha : a = linkedAt policy time fun c => fact c ∧ c.loads[g]? = some load)
    (hrec : ∀ p own, load.predecessor = some p →
      ⦃fun w => ⌜a.holds w⌝⦄ driveLoad fuel p (.load g) own
      ⦃⇓ r w => ⌜a.holds w ∧ (r.2 = true → w.cache.Finished p)⌝⦄) :
    ⦃fun w => ⌜a.holds w⌝⦄ driveLoad (fuel + 1) g party place
    ⦃⇓ r w => ⌜(linkedAt policy time fact).holds w ∧ (r.2 = true → w.cache.Finished g)⌝⦄ := by
  have hout : ∀ {s}, a.holds s →
      (linkedAt policy time fact).holds s ∧ s.cache.loads[g]? = some load := by
    subst ha
    intro s h
    exact ⟨⟨h.1, h.2.1, h.2.2.1⟩, h.2.2.2⟩
  have hwork : ∀ {s} (place : Option Nat), a.holds s →
      a.holds { s with works := s.works.modify g fun work =>
        { work with predecessorPlace := place } } := by
    intro s place h
    exact a.quiet h (.ofWork s g fun _ => rfl)
  have hbegin := fun k => beginCall_spec (k := k) policy time hfact
  have hcomplete := fun k running => completeCall_spec (k := k) (r := running) policy time hfact
  apply triple_of_forall
  intro w hw
  have hl := (hout hw).2
  mvcgen [driveLoad, hrec, modifyWork, now, hbegin, hcomplete, -now_keeps]
  case vc1 hs hn => simp [hs, hl] at hn
  -- The load that was found is the one at hand.
  all_goals
    rename Load Key Loaded => l
    rename _ = w => hs
    subst hs
    rename _ = some l => hl'
    obtain rfl : load = l := Option.some.inj (hl.symm.trans hl')
  case vc2 hph => exact ⟨(hout hw).1, _, by rw [(Cache.lookups hl).2.2, hph]⟩
  case vc7 =>
    rename a.holds _ ∧ _ => h
    exact ⟨(hout (hwork _ h.1)).1, by simp⟩
  case vc8 =>
    rename a.holds _ ∧ _ => h
    rename _ = some (_ : RunningCall) => hr
    refine linkedAt_busy (hout (hwork _ h.1)) hr ?_
    simp_all
  case vc10 =>
    rename a.holds _ ∧ _ => h
    exact ⟨(hout (hwork _ h.1)).1, by simp⟩
  case vc11 =>
    rename a.holds _ ∧ _ => h
    rename Option.bind _ _ = none => hr
    rename ¬ (!_) = true => hready
    rename load.predecessor = some _ => hp
    refine linkedAt_idle (hout (hwork _ h.1)) hr ?_
    intro p hp'
    obtain rfl := Option.some.inj (hp.symm.trans hp')
    exact h.2 (by simpa using hready)
  case vc16 =>
    clear hw
    rename a.holds _ => h
    rename _ = some (_ : RunningCall) => hr
    refine linkedAt_busy (hout h) hr ?_
    simp_all
  case vc19 =>
    clear hw
    rename a.holds _ => h
    rename Option.bind _ _ = none => hr
    rename ∀ _, _ → _ → False => hno
    rename load.predecessor = _ => hp
    rename load.phase = _ => hph
    have hq := (hout h).1.1.queued (hout h).2 hr
    refine linkedAt_idle (hout h) hr ?_
    intro p hp'
    exact (hno p (hph.symm.trans hq) (hp.symm.trans hp')).elim
  all_goals grind

/-- Driving a load leaves it linked. -/
theorem driveLoad_spec (policy : FreshnessPolicy) (time : Nat) (fuel : Nat) {g : Nat}
    (party : Party) (place : Option Nat) (hfact : Apart g fact) :
    ⦃fun w => ⌜(linkedAt policy time fact).holds w⌝⦄
    driveLoad fuel g party place
    ⦃⇓ r w => ⌜(linkedAt policy time fact).holds w ∧ (r.2 = true → w.cache.Finished g)⌝⦄ := by
  induction fuel generalizing fact g party place with
  | zero =>
    mvcgen [driveLoad]
    case vc1 h => exact ⟨h, by simp⟩
  | succ fuel ih =>
    apply triple_of_forall
    intro w hw
    cases hl : w.cache.loads[g]? with
    | none =>
      obtain ⟨a, -⟩ : ∃ a : Assertion, a.holds w := ⟨_, hw⟩
      mvcgen [driveLoad]
      all_goals simp_all
    | some load =>
      have hfound := driveLoad_found party place hfact rfl fun p own hp =>
        ih _ own (hfact.behind (hw.1.older hl hp) load)
      intro v hv
      obtain rfl : v = w := hv
      exact hfound v ⟨hw.1, hw.2.1, hw.2.2, hl⟩

end RowReplay.Simulation
