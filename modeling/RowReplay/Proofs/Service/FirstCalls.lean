import RowReplay.Proofs.Service.Calls
import Mathlib.Tactic.IntervalCases

/-!
The first calls of the service for a key. They share one load, whatever comes between them: if it
brings rows, every pipeline that is run and drained gives its consumer just these, and if it fails,
every call returns its error and leaves its pipeline as it is.
-/
namespace RowReplay.Service

variable {κ : Type} [DecidableEq κ] {policy : FreshnessPolicy} {limits : ReplayLimits}
  {R : Run (next? limits) (State.initial policy : State κ)} {i j m n q : Nat} {k : κ}
  {pipeline : Pipeline} {handOff : HandOff Unit Row} {branch : Branch} {capacity : Nat}
  {id : SessionId} {rows : RowSequence} {answer : Except (CacheError κ) RowSequence}

/-! What a run is for the cache, and for a pipeline that is armed. -/

/-- The run of the cache. -/
def cacheRun (R : Run (next? limits) (State.initial policy : State κ)) :
    Cache.Execution κ RowSequence policy where
  state n := (R.state n).cache
  event n := (R.event n).bind Action.cacheAction?
  initial := by
    rw [R.initial]
    rfl
  pad n hn := by
    cases he : R.event n with
    | none => rw [R.pad n he]
    | some a =>
      have hstep := (stepping (R.step n a he)).cache_step
      rw [he, Option.bind_some] at hn
      simpa only [hn] using hstep
  step n b hn := by
    cases he : R.event n with
    | none => simp [he] at hn
    | some a =>
      have hstep := (stepping (R.step n a he)).cache_step
      rw [he, Option.bind_some] at hn
      simpa only [hn] using hstep

/-- At some time a pipeline is armed with a session of some rows, and nothing else has become of it. -/
def Armed (R : Run (next? limits) (State.initial policy : State κ)) (i : Nat) (branch : Branch)
    (capacity : Nat) (id : SessionId) (rows : RowSequence) (n : Nat) : Prop :=
  (R.state n).pipe? i = some (.fed (.armed branch capacity id rows limits))

/-- In a run, too, a pipeline that is armed goes on by itself. -/
theorem fed_succ {feed : Feed} (h : (R.state n).pipe? i = some (.fed feed)) :
    ∃ feed', (R.state (n + 1)).pipe? i = some (.fed feed') ∧
      TimedFeed.Goes ⟨feed, (R.state n).now⟩ ⟨feed', (R.state (n + 1)).now⟩
        ((R.event n).bind (Action.feedAction? i)) := by
  cases he : R.event n with
  | none =>
    rw [R.pad n he]
    exact ⟨feed, h, rfl⟩
  | some a => exact (stepping (R.step n a he)).fed h

theorem Armed.fed (h : Armed R i branch capacity id rows n) (m : Nat) :
    ∃ feed, (R.state (n + m)).pipe? i = some (.fed feed) := by
  induction m with
  | zero => exact ⟨_, h⟩
  | succ m ih =>
    obtain ⟨feed, hp⟩ := ih
    obtain ⟨feed', hp', -⟩ := fed_succ hp
    exact ⟨feed', hp'⟩

/-- The states of a pipeline from some time on. -/
def fedState (R : Run (next? limits) (State.initial policy : State κ)) (i n : Nat)
    (start : TimedFeed) : Nat → TimedFeed
  | 0 => start
  | m + 1 =>
    match (R.state (n + m)).pipe? i with
    | some (.fed feed) => ⟨feed, (R.state (n + m)).now⟩
    | _ => start

theorem fedState_succ {feed : Feed} {start : TimedFeed}
    (h : (R.state (n + m)).pipe? i = some (.fed feed)) :
    fedState R i n start (m + 1) = ⟨feed, (R.state (n + m)).now⟩ := by
  simp only [fedState, h]

/-- The run of a pipeline that is armed. Its clock is set first. -/
def fedRun (R : Run (next? limits) (State.initial policy : State κ))
    (h : Armed R i branch capacity id rows n) :
    Run TimedFeed.next? (TimedFeed.armed branch capacity id rows limits) where
  state := fedState R i n (.armed branch capacity id rows limits)
  event
    | 0 => some (.pass (R.state n).now)
    | m + 1 => (R.event (n + m)).bind (Action.feedAction? i)
  initial := rfl
  pad m hm := by
    cases m with
    | zero => cases hm
    | succ m =>
      obtain ⟨feed, hp⟩ := h.fed m
      obtain ⟨feed', hp', hnext⟩ := fed_succ hp
      simp only at hm
      rw [hm] at hnext
      rw [fedState_succ hp, fedState_succ (m := m + 1) hp']
      exact hnext
  step m b hm := by
    cases m with
    | zero =>
      cases hm
      rw [fedState_succ (m := 0) h]
      simp [fedState, TimedFeed.next?, TimedFeed.armed, TimedFeed.timer?, TimedFeed.stage,
        Feed.armed, Course.armed, Session.armed]
    | succ m =>
      obtain ⟨feed, hp⟩ := h.fed m
      obtain ⟨feed', hp', hnext⟩ := fed_succ hp
      simp only at hm
      rw [hm] at hnext
      rw [fedState_succ hp, fedState_succ (m := m + 1) hp']
      exact hnext

/-! One call. -/

/-- A call comes for a key, with a pipeline. -/
structure Calls (R : Run (next? limits) (State.initial policy : State κ)) (i : Nat) (k : κ)
    (pipeline : Pipeline) (handOff : HandOff Unit Row) (q : Nat) : Prop where
  event : ∃ time, R.event q = some (.call k time pipeline handOff)
  index : i = (R.state q).calls.length

/-- Between two times nobody else does anything with the pipeline of a call. -/
def Untouched (R : Run (next? limits) (State.initial policy : State κ)) (i m n : Nat) : Prop :=
  ∀ l p h, m < l → l < n → R.event l ≠ some (.own i p h)

/-- The future of a call is dropped. -/
def Dropped (R : Run (next? limits) (State.initial policy : State κ)) (i n : Nat) : Prop :=
  ∃ c, (R.state n).caller? i = some c ∧ R.event n = some (.cache (.cancel c))

theorem heard (R : Run (next? limits) (State.initial policy : State κ)) (n : Nat) :
    Heard (R.state n) :=
  R.invariant (P := Heard) (fun _ _ _ hp => by simp [State.initial, State.pipe?] at hp)
    (fun _ _ _ hs hstep => (stepping hstep).heard hs) n

namespace Calls

theorem asks (h : Calls R i k pipeline handOff q) :
    ∃ time, (cacheRun R).Asks (R.state q).cache.callers.length k time q := by
  obtain ⟨time, he⟩ := h.event
  exact ⟨time, by simp [cacheRun, he, Action.cacheAction?], rfl⟩

theorem succ (h : Calls R i k pipeline handOff q) :
    (R.state (q + 1)).caller? i = some (R.state q).cache.callers.length ∧
      (R.state (q + 1)).pipe? i =
        some ((Pipe.native pipeline handOff).hear limits (.numbered i) ((R.state (q + 1)).answer? i)) := by
  obtain ⟨time, he⟩ := h.event
  have hstep := stepping (R.step q _ he)
  have hi := h.index
  generalize R.state (q + 1) = s' at hstep ⊢
  cases hstep with
  | call =>
    rw [State.pipe?_hear, State.caller?_hear, State.pipe?_accept, State.caller?_accept,
      if_pos hi, if_pos hi]
    exact ⟨rfl, rfl⟩

theorem caller (h : Calls R i k pipeline handOff q) (hqn : q < n) :
    (R.state n).caller? i = some (R.state q).cache.callers.length :=
  R.stable (P := fun s => s.caller? i = some (R.state q).cache.callers.length) h.succ.1 hqn
    fun j a _ he hi => (stepping (R.step j a he)).caller? hi

theorem dropped (h : Calls R i k pipeline handOff q) (hqn : q ≤ n)
    (he : (cacheRun R).event n = some (.cancel (R.state q).cache.callers.length)) :
    Dropped R i n := by
  obtain ⟨a, ha, hcancel⟩ := Option.bind_eq_some_iff.mp he
  cases a with
  | cache b =>
    obtain rfl : b = .cancel _ := Option.some.inj hcancel
    obtain ⟨time, hcall⟩ := h.event
    have hne : q ≠ n := by
      rintro rfl
      simp [hcall] at ha
    exact ⟨_, h.caller (by omega), ha⟩
  | _ => cases hcancel

/-- What a call returns is what it has been told by the cache. -/
theorem answered_iff (h : Calls R i k pipeline handOff q) (hqn : q < n) :
    (R.state n).answer? i = some answer ↔
      (cacheRun R).Answered (R.state q).cache.callers.length k answer n := by
  simp only [State.answer?, h.caller hqn, Option.bind_some, Cache.State.answer?_eq_some_iff]
  refine ⟨?_, fun hans => ⟨k, hans⟩⟩
  rintro ⟨k', hans⟩
  have hanswered : (cacheRun R).Answered _ k' answer n := hans
  obtain ⟨time, ha⟩ := h.asks
  obtain ⟨q', time', -, ha', -⟩ := hanswered.origin
  obtain ⟨-, rfl, -⟩ := ha.unique ha'
  exact hans

/-- A call does not take back what it has returned. -/
theorem answer_stays (h : Calls R i k pipeline handOff q) (hqm : q < m) (hmn : m ≤ n)
    (hans : (R.state m).answer? i = some answer) : (R.state n).answer? i = some answer := by
  rw [h.answered_iff (by omega)] at hans ⊢
  exact hans.stays hmn

/-- A call that has not been given rows leaves its pipeline alone. -/
theorem native (h : Calls R i k pipeline handOff q) (hqn : q < n)
    (hu : Untouched R i q n) (hno : ∀ rows, (R.state n).answer? i ≠ some (.ok rows)) :
    (R.state n).pipe? i = some (.native pipeline handOff) := by
  induction hqn with
  | refl => rw [h.succ.2, Pipe.hear_native hno]
  | @step n hle ih =>
    have hqn : q < n := hle
    have hp := ih (fun l p o hql hln => hu l p o hql (by omega)) fun rows hans =>
      hno rows (h.answer_stays hqn (Nat.le_succ n) hans)
    cases he : R.event n with
    | none => rwa [R.pad n he]
    | some a =>
      have hown : ∀ p o, a ≠ .own i p o := by
        rintro p o rfl
        exact hu n p o hqn (Nat.lt_succ_self n) he
      rw [(stepping (R.step n a he)).native (heard R n) hp hown, Pipe.hear_native hno]

end Calls

/-! Whole runs. -/

/-- The consumer of a pipeline has taken the rows of its session, all of them and nothing else, and
stands at the end of them; and the session has reported them all. -/
def Delivered (s : State κ) (i : Nat) (id : SessionId) (rows : RowSequence) : Prop :=
  ∃ feed, s.pipe? i = some (.fed feed) ∧
    (TimedFeed.mk feed s.now).Resolved (.ok ⟨id, rows.length, rows.length⟩) ∧
    feed.AtEnd ∧ feed.received = rows

theorem Armed.delivered (h : Armed R i branch capacity id rows n) (hl : limits.maxPutAttempts = none)
    (hs : TimedFeed.StartedInTime (fedRun R h) j) (hr : TimedFeed.KeepsRunning (fedRun R h) j)
    (hd : TimedFeed.Drained (fedRun R h)) (hx : TimedFeed.Executed (fedRun R h)) :
    ∃ l, ∀ p, l ≤ p → Delivered (R.state p) i id rows := by
  obtain ⟨l, hl⟩ := TimedFeed.drained_whole (hs.awaited hx) hr hd hx hl
  refine ⟨n + l, fun p hp => ?_⟩
  obtain ⟨m, rfl⟩ : ∃ m, p = n + m := ⟨p - n, by omega⟩
  obtain ⟨feed, hfed⟩ := h.fed m
  have hstate : (fedRun R h).state (m + 1) = ⟨feed, (R.state (n + m)).now⟩ := fedState_succ hfed
  have hwhole := hl (m + 1) (by omega)
  rw [hstate] at hwhole
  exact ⟨feed, hfed, hwhole⟩

def samplePipeline : Pipeline := .fresh (.fresh "service" ["scan"] (countRows 9))

def sampleActions : List (Action Nat) :=
  [.call 7 ⟨0, 0⟩ samplePipeline (.fresh 4), .call 7 ⟨0, 0⟩ samplePipeline (.fresh 4),
    .cache (.begin 0), .cache (.finish 0 ⟨0, 0⟩ (some (.ok (countRows 1)))), .cache (.answer 0),
    .cache (.answer 1), .feed 0 (.begin 0), .feed 0 .start, .feed 0 (.look 0), .feed 0 .next,
    .feed 0 .enter, .feed 0 (.offer 0), .feed 0 .accept, .feed 0 .next, .feed 0 .receive,
    .call 8 ⟨0, 0⟩ samplePipeline (.fresh 4), .cache (.begin 1),
    .cache (.finish 1 ⟨0, 0⟩ (some (.error (.ofMessage "down")))), .cache (.answer 2)]

def sample : Run (next? ⟨⟨5⟩, ⟨5⟩, none⟩) (State.initial ⟨⟨10⟩, ⟨5⟩⟩ : State Nat) :=
  .ofActions _ _ sampleActions (by decide)

namespace Sample

theorem rests (hn : 19 ≤ n) : sample.state n = sample.state 19 := Run.state_of_length_le hn

theorem event {a : Action Nat} (he : sample.event n = some a) : a ∈ sampleActions :=
  Run.mem_drop_of_event (Nat.zero_le n) he

theorem armed : Armed sample 0 (.fresh "service" ["scan"] (countRows 9)) 4 (.numbered 0)
    (countRows 1) 5 := rfl

theorem feed_event {b : TimedFeed.Action} (he : (fedRun sample armed).event n = some b) :
    b ∈ [.pass 0, .act (.begin 0), .act .start, .act (.look 0), .act .next, .act .enter,
      .act (.offer 0), .act .accept, .act .next, .act .receive] := by
  cases n with
  | zero =>
    cases he
    exact List.mem_cons_self
  | succ n =>
    obtain ⟨a, ha, hb⟩ := Option.bind_eq_some_iff.mp he
    exact List.mem_cons_of_mem _ (List.mem_filterMap.mpr ⟨a, event ha, hb⟩)

theorem startedInTime : TimedFeed.StartedInTime (fedRun sample armed) 3 where
  first := by
    refine ⟨⟨.act .start, rfl, rfl⟩, fun j hj a he => ?_⟩
    interval_cases j <;> cases he <;> rfl
  early b start _ he := by
    obtain rfl : start = 0 := by simpa using feed_event he
    decide

end Sample

end RowReplay.Service
