import RowReplay.Proofs.Cache.Operations
import RowReplay.Proofs.Run

/-!
The cache among its callers. A state holds the cache, the last reading of the clock and every call
of `get` so far; an action is one critical section of the cache, one step of a load, or one step of
a caller. Nothing but the guards of `Step` restricts the order of actions: whoever drives a load
takes the same steps, so they name the load alone.
-/
namespace RowReplay.Cache

/-- Where a call stands. -/
inductive Standing (κ ν : Type)
  | waiting (load : Nat)
  | answered (answer : Except (CacheError κ) ν)
  /-- It was dropped while it waited. -/
  | cancelled

structure Caller (κ ν : Type) where
  key : κ
  standing : Standing κ ν

structure State (κ ν : Type) where
  cache : Cache κ ν
  clock : ClockReading
  callers : List (Caller κ ν)

inductive Action (κ ν : Type)
  /-- A call reads the clock and makes its decision. -/
  | get (key : κ) (time : ClockReading)
  /-- A caller that waits is dropped. -/
  | cancel (caller : Nat)
  /-- A caller that waits takes the answer of its finished load. -/
  | answer (caller : Nat)
  /-- The loader is called for a load. -/
  | begin (load : Nat)
  /-- The loader answers, or crashes, and the load completes. -/
  | finish (load : Nat) (time : ClockReading) (result : LoadResult ν)
  | invalidate (key : κ)
  | invalidateAll

variable {κ ν : Type} [DecidableEq κ]

/-- Where a call stands right after its decision. -/
def standingOf (k : κ) : Decision ν → Standing κ ν
  | .hit e => .answered (e.result k)
  | .staleHit e => .answered (e.result k)
  | .miss g => .waiting g

namespace State

def initial (policy : FreshnessPolicy) : State κ ν := ⟨.empty policy, ⟨0, 0⟩, []⟩

def ask (s : State κ ν) (k : κ) (time : ClockReading) : State κ ν where
  cache := (s.cache.request k time).1
  clock := time
  callers := s.callers ++ [⟨k, standingOf k (s.cache.request k time).2.1⟩]

def setStanding (s : State κ ν) (i : Nat) (standing : Standing κ ν) : State κ ν :=
  { s with callers := s.callers.modify i fun caller => { caller with standing } }

def complete (s : State κ ν) (k : κ) (g : Nat) (time : ClockReading) (result : LoadResult ν) :
    State κ ν :=
  { s with cache := s.cache.complete k g time result, clock := time }

end State

/-- The steps that can be taken. The clock never goes back; a load begins after its predecessor. -/
inductive Step (s : State κ ν) : Action κ ν → State κ ν → Prop
  | get {k : κ} {time : ClockReading} (ht : s.clock.elapsed ≤ time.elapsed) :
    Step s (.get k time) (s.ask k time)
  | cancel {i g : Nat} {k : κ} (hc : s.callers[i]? = some ⟨k, .waiting g⟩) :
    Step s (.cancel i) (s.setStanding i .cancelled)
  | answer {i g : Nat} {k : κ} {entry : Option (Entry ν)}
    (hc : s.callers[i]? = some ⟨k, .waiting g⟩)
    (hp : s.cache.phaseOf g = some (.finished entry)) :
    Step s (.answer i) (s.setStanding i (.answered (Cache.answer k entry)))
  | begin {g : Nat} {load : Load κ ν} (hl : s.cache.loads[g]? = some load)
    (hq : load.phase = .queued) (hr : s.cache.isReady load = true) :
    Step s (.begin g) { s with cache := s.cache.begin g }
  | finish {g : Nat} {load : Load κ ν} {time : ClockReading} {result : LoadResult ν}
    (hl : s.cache.loads[g]? = some load) (hr : load.phase = .running)
    (ht : s.clock.elapsed ≤ time.elapsed) :
    Step s (.finish g time result) (s.complete load.key g time result)
  | invalidate {k : κ} : Step s (.invalidate k) { s with cache := s.cache.invalidate k }
  | invalidateAll : Step s .invalidateAll { s with cache := s.cache.invalidateAll }

/-- The state after an action, if the action can be taken. -/
def next? (s : State κ ν) : Action κ ν → Option (State κ ν)
  | .get k time => if s.clock.elapsed ≤ time.elapsed then some (s.ask k time) else none
  | .cancel i =>
    match s.callers[i]? with
    | some ⟨_, .waiting _⟩ => some (s.setStanding i .cancelled)
    | _ => none
  | .answer i =>
    match s.callers[i]? with
    | some ⟨k, .waiting g⟩ =>
      match s.cache.phaseOf g with
      | some (.finished entry) => some (s.setStanding i (.answered (Cache.answer k entry)))
      | _ => none
    | _ => none
  | .begin g =>
    match s.cache.loads[g]? with
    | some load =>
      match load.phase with
      | .queued => if s.cache.isReady load then some { s with cache := s.cache.begin g } else none
      | _ => none
    | none => none
  | .finish g time result =>
    match s.cache.loads[g]? with
    | some load =>
      match load.phase with
      | .running =>
        if s.clock.elapsed ≤ time.elapsed then some (s.complete load.key g time result) else none
      | _ => none
    | none => none
  | .invalidate k => some { s with cache := s.cache.invalidate k }
  | .invalidateAll => some { s with cache := s.cache.invalidateAll }

theorem next?_eq_some_iff {s t : State κ ν} {a : Action κ ν} : next? s a = some t ↔ Step s a t := by
  constructor
  · intro h
    cases a with
    | get k time =>
      obtain ⟨ht, rfl⟩ := by simpa [next?] using h
      exact .get ht
    | cancel i =>
      simp only [next?] at h
      split at h
      case h_1 hc => cases h; exact .cancel hc
      case h_2 => cases h
    | answer i =>
      simp only [next?] at h
      split at h
      case h_1 hc =>
        split at h
        case h_1 hp => cases h; exact .answer hc hp
        case h_2 => cases h
      case h_2 => cases h
    | begin g =>
      simp only [next?] at h
      split at h
      case h_1 hl =>
        split at h
        case h_1 hq =>
          obtain ⟨hr, rfl⟩ := by simpa using h
          exact .begin hl hq hr
        case h_2 => cases h
      case h_2 => cases h
    | finish g time result =>
      simp only [next?] at h
      split at h
      case h_1 hl =>
        split at h
        case h_1 hr =>
          obtain ⟨ht, rfl⟩ := by simpa using h
          exact .finish hl hr ht
        case h_2 => cases h
      case h_2 => cases h
    | invalidate k => cases h; exact .invalidate
    | invalidateAll => cases h; exact .invalidateAll
  · intro h
    cases h with
    | get ht => simp [next?, ht]
    | cancel hc => simp [next?, hc]
    | answer hc hp => simp [next?, hc, hp]
    | begin hl hq hr => simp [next?, hl, hq, hr]
    | finish hl hr ht => simp [next?, hl, hr, ht]
    | invalidate => rfl
    | invalidateAll => rfl

inductive Reachable (policy : FreshnessPolicy) : State κ ν → Prop
  | initial : Reachable policy (.initial policy)
  | step {s t : State κ ν} {a : Action κ ν} (hs : Reachable policy s) (h : Step s a t) :
    Reachable policy t

/-- A run of any length: where it has no event, the state stays. -/
structure Execution (κ ν : Type) [DecidableEq κ] (policy : FreshnessPolicy) where
  state : Nat → State κ ν
  event : Nat → Option (Action κ ν)
  initial : state 0 = .initial policy
  pad : ∀ n, event n = none → state (n + 1) = state n
  step : ∀ n a, event n = some a → Step (state n) a (state (n + 1))

theorem Execution.reachable {policy : FreshnessPolicy} (E : Execution κ ν policy) (n : Nat) :
    Reachable policy (E.state n) := by
  induction n with
  | zero =>
    rw [E.initial]
    exact .initial
  | succ n ih =>
    cases he : E.event n with
    | none => rwa [E.pad n he]
    | some a => exact ih.step (E.step n a he)

/-- A finite run that can be taken, resting in its last state. -/
def Execution.ofActions (policy : FreshnessPolicy) (actions : List (Action κ ν))
    (h : (actions.foldlM next? (.initial policy)).isSome) : Execution κ ν policy where
  state n := ((actions.take n).foldlM next? (.initial policy)).getD (.initial policy)
  event n := actions[n]?
  initial := rfl
  pad n hn := by
    have hlen := List.getElem?_eq_none_iff.mp hn
    rw [List.take_of_length_le hlen, List.take_of_length_le (by omega)]
  step n a hn := next?_eq_some_iff.mp (foldlM_take_succ h hn)

/-- Every reachable state is one of a run. -/
theorem Reachable.execution {policy : FreshnessPolicy} {s : State κ ν} (h : Reachable policy s) :
    ∃ (E : Execution κ ν policy) (n : Nat), E.state n = s := by
  have hreaches : Reaches next? (.initial policy) s := by
    induction h with
    | initial => exact .refl
    | step _ hstep ih => exact ih.step (next?_eq_some_iff.mpr hstep)
  obtain ⟨actions, ha⟩ := hreaches
  refine ⟨.ofActions policy actions (by simp [ha]), actions.length, ?_⟩
  simp [Execution.ofActions, ha]

/-- A load is invalidated while it runs and another one follows it, which two calls wait for; its
value is served, its first refresh fails, and the next one is waited for and crashes. -/
def Execution.sample : Execution Nat Nat ⟨⟨10⟩, ⟨5⟩⟩ :=
  .ofActions _
    [.get 0 ⟨0, 0⟩, .begin 0, .invalidate 0, .get 0 ⟨1, 0⟩, .get 0 ⟨1, 0⟩,
      .finish 0 ⟨2, 0⟩ (some (.ok 7)), .begin 1, .answer 0, .finish 1 ⟨3, 0⟩ (some (.ok 8)),
      .answer 1, .answer 2, .get 0 ⟨4, 0⟩, .get 0 ⟨9, 0⟩, .begin 2,
      .finish 2 ⟨12, 0⟩ (some (.error (.ofMessage "down"))), .get 0 ⟨13, 0⟩, .get 0 ⟨14, 0⟩,
      .begin 3, .finish 3 ⟨15, 0⟩ none, .answer 6]
    (by decide)

end RowReplay.Cache
