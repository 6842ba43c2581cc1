import Mathlib.Algebra.Group.Nat.Defs
import RowReplay.Command.Run
import RowReplay.Proofs.Demo.Exchange

/-!
What a demonstration reports. The rows are computed once, and each later replay finds them in the
cache at the age of zero, which is fresh whatever the limits are; each replay delivers all rows.
-/
namespace RowReplay

/-- A time that a clock shows: after the start of 1970, and within no leap second. -/
def Timestamp.IsClockTime (t : Timestamp) : Prop := 0 ≤ t.seconds ∧ t.nanos < Span.nanosPerSecond

instance (t : Timestamp) : Decidable t.IsClockTime := inferInstanceAs (Decidable (_ ∧ _))

namespace Cache

variable {κ ν : Type} [DecidableEq κ] (policy : FreshnessPolicy) (k : κ)
  (asked now : ClockReading)

theorem request_empty : (empty policy : Cache κ ν).request k asked =
    (⟨policy, .empty, Table.empty.insert k ⟨0, false⟩, ⟨0, 0, 1, 1, 0⟩, [⟨k, none, .queued⟩]⟩,
      .miss 0, some 0) := rfl

/-- The first load of an empty cache installs its entry and leaves nothing pending. -/
theorem first_load (value : ν) :
    let c := ((empty policy : Cache κ ν).request k asked).1.begin 0
    c.entryOf k now (some (.ok value)) = some (.loaded value now) ∧
      (c.complete k 0 now (some (.ok value))).peek k = some (.loaded value now) ∧
      (c.complete k 0 now (some (.ok value))).stats = ⟨1, 0, 0, 0, 1, 1, 0⟩ := by
  intro c
  have hslot : c.pending.get? k = some ⟨0, false⟩ := by
    simp [c, request_empty, begin, setPhase]
  have hcurrent : c.isCurrent k 0 = true := by
    unfold isCurrent
    rw [hslot]
    rfl
  have howns : c.ownsSlot k 0 = true := by
    unfold ownsSlot
    rw [hslot]
    rfl
  refine ⟨rfl, ?_, ?_⟩
  · simp [peek, complete, entryOf, hcurrent, setPhase]
  · simp [stats, complete, entryOf, hcurrent, howns, setPhase]
    simp [c, request_empty, begin, setPhase, Table.size, Table.insert, Table.erase, Table.empty]

end Cache

namespace Demo

variable {plan : Plan} {rows : RowSequence} {limits : ReplayLimits} {s : State} {hits : Nat}
  {loaded : Option RowSequence}

/-- A pipeline that was armed runs from its start on, and the session's gate opens. -/
theorem start_arm_fresh (branch : Branch) (id : SessionId) :
    ((Pipeline.fresh branch).arm id).1.start.1.running = true ∧
      ((Pipeline.fresh branch).arm id).1.start.2.any (opensGate id) = true := by
  simp [Pipeline.arm, Pipeline.start, Pipeline.fresh, Pipeline.defaultListeners, Pipeline.fire,
    Pipeline.actAll, Pipeline.act, Pipeline.removeMatching, Pipeline.registerOnce,
    Listeners.register, Listeners.removeMatching, Listeners.atPoint, Listeners.setPoint,
    Listeners.take, opensGate]

theorem complete_replayInto (hpatient : 0 < limits.putTimeout.nanos) (number now : Nat)
    (rows : RowSequence) :
    Exchange.Complete (Session.armed (.numbered number) rows limits).openGate
      (replayInto limits number now rows) := by
  obtain ⟨hrunning, hopens⟩ :=
    start_arm_fresh (.fresh "service" ["input", "compute", "output"] []) (.numbered number)
  unfold replayInto
  dsimp only
  rw [hrunning, hopens]
  exact Exchange.complete_run rfl hpatient now handOffCapacity

/-- The rows were loaded at this very time, and nothing else has ever been loaded. -/
structure Warm (query : String) (rows : RowSequence) (hits : Nat) (s : State) : Prop where
  entry : s.cache.peek query = some (.loaded rows ⟨s.now, s.now⟩)
  stats : s.cache.stats = ⟨1, 0, hits, 0, 1, 1, 0⟩

theorem obtain_first (plan : Plan) (policy : FreshnessPolicy) (rows : RowSequence) :
    ∃ next, obtain plan (some rows) ⟨.empty policy, 0⟩ = (next, .ok rows) ∧
      Warm plan.query rows 0 next := by
  obtain ⟨hentry, hpeek, hstats⟩ := Cache.first_load policy plan.query ⟨0, 0⟩
    ⟨0 + plan.loadDelay.nanos, (0 + plan.loadDelay.nanos : Nat)⟩ rows
  exact ⟨_, rfl, ⟨hpeek, hstats⟩⟩

theorem Warm.obtain (h : Warm plan.query rows hits s) (loaded : Option RowSequence) :
    ∃ next, obtain plan loaded s = (next, .ok rows) ∧
      Warm plan.query rows (hits + 1) next := by
  have hfresh : (Entry.loaded rows ⟨s.now, s.now⟩).freshness s.cache.policy ⟨s.now, s.now⟩ =
      .fresh := by
    have hage : (Entry.loaded rows ⟨s.now, s.now⟩).age ⟨s.now, s.now⟩ = ⟨0⟩ :=
      congrArg Span.mk (Nat.sub_self _)
    have hnot (limit : Span) : ¬limit < ⟨0⟩ := Nat.not_lt_zero _
    unfold Entry.freshness FreshnessPolicy.classify
    rw [hage, if_neg (hnot _), if_neg (hnot _)]
  have hstats := h.stats
  simp only [Cache.stats, CacheStats.mk.injEq] at hstats
  have hentry : s.cache.entries.get? plan.query = some _ := h.entry
  unfold Demo.obtain Cache.request
  rw [hentry]
  dsimp only
  rw [hfresh]
  refine ⟨_, rfl, ⟨h.entry, ?_⟩⟩
  simp [Cache.stats, hstats]

/-- What a replay is reported with, but for the time it took. -/
def Summary.counts (r : Summary) : Nat × Nat × Nat × Nat :=
  (r.number, r.delivered, r.consumed, r.total)

/-- A replay whose rows are found is reported with all of them. -/
theorem replayAll_cons {next : State} (hobtain : obtain plan loaded s = (next, .ok rows))
    (hpatient : 0 < limits.putTimeout.nanos) (number : Nat) (more : List Nat) :
    ∃ summary : Summary, summary.counts = (number, rows.length, rows.length, rows.length) ∧
      replayAll plan limits loaded (number :: more) s =
        (replayAll plan limits loaded more next).map fun (summaries, last) =>
          (summary :: summaries, last) := by
  obtain ⟨hresult, hconsumed⟩ := complete_replayInto hpatient number next.now rows
  refine ⟨⟨number, rows.length, (replayInto limits number next.now rows).consumed, rows.length,
    Span.millis ⟨next.now - s.now⟩⟩, ?_, ?_⟩
  · exact congrArg (fun consumed => (number, rows.length, consumed, rows.length)) hconsumed
  · conv => lhs; unfold replayAll
    rw [hobtain]
    dsimp only
    rw [hresult]
    rfl

/-- Once the rows are there, each replay is a hit. -/
theorem Warm.replayAll (h : Warm plan.query rows hits s) (hpatient : 0 < limits.putTimeout.nanos)
    (loaded : Option RowSequence) (numbers : List Nat) :
    ∃ summaries last, replayAll plan limits loaded numbers s = .ok (summaries, last) ∧
      summaries.map Summary.counts = numbers.map (·, rows.length, rows.length, rows.length) ∧
      Warm plan.query rows (hits + numbers.length) last := by
  induction numbers generalizing s hits with
  | nil => exact ⟨[], s, rfl, rfl, h⟩
  | cons number more ih =>
    obtain ⟨next, hobtain, hnext⟩ := h.obtain loaded
    obtain ⟨summaries, last, hmore, hcounts, hlast⟩ := ih hnext
    obtain ⟨summary, hsummary, heq⟩ := replayAll_cons hobtain hpatient number more
    refine ⟨summary :: summaries, last, ?_, ?_, ?_⟩
    · rw [heq, hmore]
      rfl
    · rw [List.map_cons, List.map_cons, hsummary, hcounts]
    · rwa [List.length_cons, Nat.add_comm more.length, ← Nat.add_assoc]

/-- The counters of a demonstration's cache after so many replays. -/
def statsAfter (replays : Nat) : CacheStats where
  entries := min 1 replays
  pendingLoads := 0
  hits := replays - min 1 replays
  staleHits := 0
  misses := min 1 replays
  loadsStarted := min 1 replays
  loadFailures := 0

/-- The first replay waits for the rows, and the others find them. -/
theorem run_eq_ok (plan : Plan) (policy : FreshnessPolicy)
    (hpatient : 0 < limits.putTimeout.nanos) (rows : RowSequence) :
    ∃ report span, run plan policy limits (some rows) = .ok (report, span) ∧
      report.query = plan.query ∧
      report.replays.map Summary.counts =
        (List.range' 1 plan.replays).map (·, rows.length, rows.length, rows.length) ∧
      report.cache = statsAfter plan.replays := by
  unfold run
  cases plan.replays with
  | zero => exact ⟨_, _, rfl, rfl, rfl, rfl⟩
  | succ later =>
    obtain ⟨next, hobtain, hnext⟩ := obtain_first plan policy rows
    obtain ⟨summaries, last, hmore, hcounts, hlast⟩ :=
      hnext.replayAll hpatient (some rows) (List.range' 2 later)
    obtain ⟨summary, hsummary, heq⟩ := replayAll_cons hobtain hpatient 1 (List.range' 2 later)
    rw [List.range'_succ, heq, hmore]
    refine ⟨_, _, rfl, rfl, ?_, ?_⟩
    · rw [List.map_cons, hsummary, hcounts, List.map_cons]
    · rw [hlast.stats, statsAfter, List.length_range']
      simp

theorem exists_mapM {α β : Type} {f : α → Option β} {l : List α} (h : ∀ a ∈ l, ∃ b, f a = some b) :
    ∃ bs, l.mapM f = some bs ∧ bs.length = l.length := by
  induction l with
  | nil => exact ⟨[], rfl, rfl⟩
  | cons a l ih =>
    rw [List.forall_mem_cons] at h
    obtain ⟨b, hb⟩ := h.1
    obtain ⟨bs, hbs, hlength⟩ := ih h.2
    refine ⟨b :: bs, ?_, congrArg (· + 1) hlength⟩
    rw [List.mapM_cons, hb, hbs]
    rfl

/-- The calendar reaches back over the rows. -/
theorem exists_rows? {newest : Timestamp} (hnewest : newest.IsClockTime) (query : String)
    {count : Nat} (hcount : count ≤ 8 * 10 ^ 12) :
    ∃ rows, rows? query newest count = some rows ∧ rows.length = count := by
  have hrow (i : Nat) (hi : i ∈ List.range count) : ∃ row, row? query newest i = some row := by
    obtain ⟨hseconds, hnanos⟩ := hnewest
    have hlatest := newest.valid.2.1
    have hi := List.mem_range.mp hi
    unfold Span.nanosPerSecond at hnanos
    have hvalid : Timestamp.IsValid (newest.seconds - i) newest.nanos := by
      refine ⟨by omega, by omega, by omega, fun hleap => ?_⟩
      exact absurd hnanos (Nat.not_lt.mpr hleap)
    unfold row? Timestamp.earlier? Timestamp.make?
    rw [dif_pos hvalid]
    exact ⟨_, rfl⟩
  obtain ⟨rows, hrows, hlength⟩ := exists_mapM hrow
  exact ⟨rows, hrows, hlength.trans List.length_range⟩

/-- The command prints the report of the demonstration. -/
theorem perform_demo {config : Config} {policy : FreshnessPolicy} {now : Timestamp}
    {report : Report} {span : Span} (hpolicy : config.policy? = some policy)
    (hrun : run plan policy config.limits (rows? plan.query now plan.rows) = .ok (report, span))
    (json : Bool) : Command.perform json config now (.demo plan) =
      .success (if json then report.toJson.pretty else report.text) := by
  rw [Command.perform.eq_def]
  -- a match on the policy of unknown settings must not be reduced: its fraction would be computed
  generalize config.policy? = policy? at hpolicy ⊢
  subst hpolicy
  simp only [hrun]

/-- For every configuration that can be run and makes a cache, every number of replays, query and
time that the computation takes, and for as many rows as the calendar reaches back over: the
demonstration succeeds, as a command as well. Its replays are numbered from one on, each delivers
all rows, and its consumer receives them; the first has them computed, and the others find them
fresh. -/
theorem run_reports {config : Config} {policy : FreshnessPolicy} {now : Timestamp}
    (hvalid : config.IsValid) (hpolicy : config.policy? = some policy) (hnow : now.IsClockTime)
    (plan : Plan) (hrows : plan.rows ≤ 8 * 10 ^ 12) :
    ∃ (report : Report) (span : Span),
      run plan policy config.limits (rows? plan.query now plan.rows) = .ok (report, span) ∧
      (∀ json, Command.perform json config now (.demo plan) =
        .success (if json then report.toJson.pretty else report.text)) ∧
      report.query = plan.query ∧
      report.replays.map Summary.counts =
        (List.range' 1 plan.replays).map (·, plan.rows, plan.rows, plan.rows) ∧
      report.cache = statsAfter plan.replays := by
  obtain ⟨rows, hcomputed, hlength⟩ := exists_rows? hnow plan.query hrows
  obtain ⟨report, span, hrun, hquery, hcounts, hstats⟩ :=
    run_eq_ok plan policy hvalid.putTimeout_pos rows
  rw [hlength] at hcounts
  rw [← hcomputed] at hrun
  exact ⟨report, span, hrun, perform_demo hpolicy hrun, hquery, hcounts, hstats⟩

/-- More rows than have room at a time, and a single attempt allowed for each. -/
theorem run_reports_sample :
    let config : Config := { Config.default with replay := ⟨1, 1, some 1⟩ }
    let plan : Plan := ⟨200, 3, .ofMillis 5000, "q"⟩
    config.IsValid ∧ Timestamp.epoch.IsClockTime ∧ ∃ policy, config.policy? = some policy ∧
      ∃ report span, run plan policy config.limits (rows? "q" .epoch 200) = .ok (report, span) ∧
        report.replays.map Summary.counts =
          [(1, 200, 200, 200), (2, 200, 200, 200), (3, 200, 200, 200)] ∧
        report.cache = ⟨1, 0, 2, 0, 1, 1, 0⟩ := by
  intro config plan
  have hvalid : config.IsValid := by decide +kernel
  have hclock : Timestamp.epoch.IsClockTime := by decide
  obtain ⟨policy, hpolicy⟩ : ∃ policy, config.policy? = some policy :=
    Option.isSome_iff_exists.mp (by decide +kernel)
  obtain ⟨report, span, hrun, -, -, hcounts, hstats⟩ :=
    run_reports hvalid hpolicy hclock plan (by decide)
  exact ⟨hvalid, hclock, policy, hpolicy, report, span, hrun, hcounts, hstats⟩

end Demo

end RowReplay
