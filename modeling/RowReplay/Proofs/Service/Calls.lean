import RowReplay.Proofs.Cache.FirstLoad
import RowReplay.Proofs.Replay.Draining

/-!
The service that replays cached rows, among all who use it. A call comes with a pipeline and asks the
cache for the rows of its key. If it is given rows, it arms the pipeline with a session; whatever
else it is told, it leaves the pipeline to those who use it.
-/
namespace RowReplay

/-- A pipeline, as others have left it, armed with a session. -/
def Feed.arm (pipeline : Pipeline) (handOff : HandOff Unit Row) (id : SessionId) (rows : RowSequence)
    (limits : ReplayLimits) : Feed where
  pipeline := (pipeline.arm id).1
  handOff
  isAccepting := true
  course := .armed id rows limits
  attempt := .none
  sent := []
  received := []

namespace Cache

variable {κ ν : Type}

/-- What a call has been told. -/
def State.answer? (s : State κ ν) (c : Nat) : Option (Except (CacheError κ) ν) :=
  match s.callers[c]? with
  | some ⟨_, .answered answer⟩ => some answer
  | _ => none

theorem State.answer?_eq_some_iff {s : State κ ν} {c : Nat} {answer : Except (CacheError κ) ν} :
    s.answer? c = some answer ↔ ∃ k, s.callers[c]? = some ⟨k, .answered answer⟩ := by
  unfold answer?
  split <;> simp_all

/-- The time at which an action reads the clock. -/
def Action.time? : Action κ ν → Option ClockReading
  | .get _ time | .finish _ time _ => some time
  | _ => none

end Cache

/-- An action is taken, or, without one, nothing changes. -/
def TimedFeed.Goes (f f' : TimedFeed) : Option TimedFeed.Action → Prop
  | some a => TimedFeed.next? f a = some f'
  | none => f' = f

namespace Service

inductive Pipe
  /-- The service has done nothing to it. -/
  | native (pipeline : Pipeline) (handOff : HandOff Unit Row)
  /-- It is armed with a session. -/
  | fed (feed : Feed)

/-- What an answer means for a pipeline. -/
def Pipe.hear {κ : Type} (limits : ReplayLimits) (id : SessionId) (pipe : Pipe)
    (answer : Option (Except (CacheError κ) RowSequence)) : Pipe :=
  match pipe, answer with
  | .native pipeline handOff, some (.ok rows) => .fed (.arm pipeline handOff id rows limits)
  | pipe, _ => pipe

/-- A call of the service: its call of the cache, and its pipeline. -/
structure Call where
  caller : Nat
  pipe : Pipe

structure State (κ : Type) where
  cache : Cache.State κ RowSequence
  calls : List Call
  now : Nat

inductive Action (κ : Type)
  /-- A call comes with a pipeline, reads the clock and asks the cache. -/
  | call (key : κ) (time : ClockReading) (pipeline : Pipeline) (handOff : HandOff Unit Row)
  /-- Anything else that happens to the cache, its loads and its callers. -/
  | cache (action : Cache.Action κ RowSequence)
  /-- Others do something with a pipeline that the service has done nothing to. -/
  | own (call : Nat) (pipeline : Pipeline) (handOff : HandOff Unit Row)
  /-- Something happens to a pipeline that is armed, or to its session. -/
  | feed (call : Nat) (action : Feed.Action)
  /-- A pipeline that is armed is dropped. -/
  | drop (call : Nat)
  | pass (time : Nat)

namespace State

variable {κ : Type}

def initial (policy : FreshnessPolicy) : State κ := ⟨.initial policy, [], 0⟩

def caller? (s : State κ) (i : Nat) : Option Nat := s.calls[i]?.map Call.caller

def pipe? (s : State κ) (i : Nat) : Option Pipe := s.calls[i]?.map Call.pipe

/-- What a call has returned. -/
def answer? (s : State κ) (i : Nat) : Option (Except (CacheError κ) RowSequence) :=
  (s.caller? i).bind s.cache.answer?

/-- Every call hears what the cache has told it. -/
def hear (s : State κ) (limits : ReplayLimits) (cache : Cache.State κ RowSequence) : State κ :=
  { s with
    cache
    calls := s.calls.mapIdx fun i call =>
      { call with pipe := call.pipe.hear limits (.numbered i) (cache.answer? call.caller) } }

/-- A pipeline is handed to a new call. -/
def accept (s : State κ) (pipeline : Pipeline) (handOff : HandOff Unit Row) : State κ :=
  { s with calls := s.calls ++ [⟨s.cache.callers.length, .native pipeline handOff⟩] }

def setPipe (s : State κ) (i : Nat) (pipe : Pipe) : State κ :=
  { s with calls := s.calls.modify i fun call => { call with pipe } }

/-- A pipeline that is armed goes on. -/
def drive (s : State κ) (i : Nat) (a : TimedFeed.Action) : Option (State κ) :=
  match s.pipe? i with
  | some (.fed feed) =>
    (TimedFeed.next? ⟨feed, s.now⟩ a).map fun fed => s.setPipe i (.fed fed.feed)
  | _ => none

/-- No timer of a session keeps the time from passing. -/
def lets (s : State κ) (time : Nat) : Bool :=
  s.calls.all fun call =>
    match call.pipe with
    | .native .. => true
    | .fed feed => (TimedFeed.next? ⟨feed, s.now⟩ (.pass time)).isSome

/-! What each of these does to callers, pipelines and answers. -/

variable {limits : ReplayLimits} {s : State κ} {i j c : Nat} {pipe : Pipe}
  {cache : Cache.State κ RowSequence}

@[simp] theorem caller?_hear : (s.hear limits cache).caller? i = s.caller? i := by
  simp [caller?, hear, Function.comp_def]

@[simp] theorem caller?_setPipe : (s.setPipe j pipe).caller? i = s.caller? i := by
  simp only [caller?, setPipe, List.getElem?_modify]
  cases s.calls[i]? with
  | none => rfl
  | some call =>
    simp only [Option.map_eq_map, Option.map_some]
    split <;> rfl

theorem ne_length {α : Type} {f : Call → α} {a : α} (h : s.calls[i]?.map f = some a) :
    i ≠ s.calls.length := by
  obtain ⟨call, hcall, -⟩ := Option.map_eq_some_iff.mp h
  exact Nat.ne_of_lt (List.getElem?_eq_some_iff.mp hcall).1

theorem caller?_accept (pipeline : Pipeline) (handOff : HandOff Unit Row) :
    (s.accept pipeline handOff).caller? i =
      if i = s.calls.length then some s.cache.callers.length else s.caller? i := by
  simp only [caller?, accept, List.getElem?_append]
  grind

theorem pipe?_accept (pipeline : Pipeline) (handOff : HandOff Unit Row) :
    (s.accept pipeline handOff).pipe? i =
      if i = s.calls.length then some (.native pipeline handOff) else s.pipe? i := by
  simp only [pipe?, accept, List.getElem?_append]
  grind

theorem pipe?_setPipe :
    (s.setPipe j pipe).pipe? i = if j = i then (s.pipe? i).map fun _ => pipe else s.pipe? i := by
  simp only [pipe?, setPipe, List.getElem?_modify]
  cases s.calls[i]? with
  | none => split <;> rfl
  | some call =>
    simp only [Option.map_eq_map, Option.map_some]
    split <;> rfl

@[simp] theorem answer?_setPipe : (s.setPipe j pipe).answer? i = s.answer? i := by
  simp only [answer?, caller?_setPipe]
  rfl

/-- A pipeline becomes what the answer makes of it. -/
theorem pipe?_hear :
    (s.hear limits cache).pipe? i =
      (s.pipe? i).map fun pipe =>
        pipe.hear limits (.numbered i) ((s.hear limits cache).answer? i) := by
  rw [answer?, caller?_hear]
  simp only [pipe?, caller?, hear, List.getElem?_mapIdx]
  cases s.calls[i]? with
  | none => rfl
  | some call => rfl

theorem drive_eq_some {s' : State κ} {a : TimedFeed.Action} (h : s.drive i a = some s') :
    ∃ feed fed, s.pipe? i = some (.fed feed) ∧ TimedFeed.next? ⟨feed, s.now⟩ a = some fed ∧
      s' = s.setPipe i (.fed fed.feed) := by
  unfold drive at h
  split at h
  case h_1 feed hp =>
    obtain ⟨fed, hf, rfl⟩ := Option.map_eq_some_iff.mp h
    exact ⟨feed, fed, hp, hf, rfl⟩
  case h_2 => cases h

end State

variable {κ : Type} [DecidableEq κ]

/-- The state after an action, if the action can be taken. Whoever reads the clock sees the same
time. -/
def next? (limits : ReplayLimits) (s : State κ) : Action κ → Option (State κ)
  | .call k time pipeline handOff =>
    if time.elapsed = s.now then
      (Cache.next? s.cache (.get k time)).map ((s.accept pipeline handOff).hear limits)
    else none
  | .cache a =>
    if a.time?.all (·.elapsed = s.now) then (Cache.next? s.cache a).map (s.hear limits) else none
  | .own i pipeline handOff =>
    match s.pipe? i with
    | some (.native ..) => some (s.setPipe i (.native pipeline handOff))
    | _ => none
  | .feed i a => s.drive i (.act a)
  | .drop i => s.drive i .dropPipeline
  | .pass time => if s.now ≤ time ∧ s.lets time then some { s with now := time } else none

/-- What each action does. -/
inductive Stepping (limits : ReplayLimits) (s : State κ) : Action κ → State κ → Prop
  | call {k : κ} {time : ClockReading} {pipeline : Pipeline} {handOff : HandOff Unit Row}
    {cache : Cache.State κ RowSequence} (ht : time.elapsed = s.now)
    (hc : Cache.Step s.cache (.get k time) cache) :
    Stepping limits s (.call k time pipeline handOff)
      ((s.accept pipeline handOff).hear limits cache)
  | cache {a : Cache.Action κ RowSequence} {cache : Cache.State κ RowSequence}
    (ht : ∀ time, a.time? = some time → time.elapsed = s.now) (hc : Cache.Step s.cache a cache) :
    Stepping limits s (.cache a) (s.hear limits cache)
  | own {i : Nat} {pipeline p : Pipeline} {handOff h : HandOff Unit Row}
    (hp : s.pipe? i = some (.native p h)) :
    Stepping limits s (.own i pipeline handOff) (s.setPipe i (.native pipeline handOff))
  | feed {i : Nat} {a : Feed.Action} {feed : Feed} {fed : TimedFeed}
    (hp : s.pipe? i = some (.fed feed)) (hf : TimedFeed.next? ⟨feed, s.now⟩ (.act a) = some fed) :
    Stepping limits s (.feed i a) (s.setPipe i (.fed fed.feed))
  | drop {i : Nat} {feed : Feed} {fed : TimedFeed} (hp : s.pipe? i = some (.fed feed))
    (hf : TimedFeed.next? ⟨feed, s.now⟩ .dropPipeline = some fed) :
    Stepping limits s (.drop i) (s.setPipe i (.fed fed.feed))
  | pass {time : Nat} (ht : s.now ≤ time)
    (hf : ∀ i feed, s.pipe? i = some (.fed feed) →
      TimedFeed.next? ⟨feed, s.now⟩ (.pass time) = some ⟨feed, time⟩) :
    Stepping limits s (.pass time) { s with now := time }

theorem stepping {limits : ReplayLimits} {s s' : State κ} {a : Action κ}
    (h : next? limits s a = some s') : Stepping limits s a s' := by
  cases a with
  | call k time pipeline handOff =>
    simp only [next?] at h
    split at h
    case isTrue ht =>
      obtain ⟨cache, hc, rfl⟩ := Option.map_eq_some_iff.mp h
      exact .call ht (Cache.next?_eq_some_iff.mp hc)
    case isFalse => cases h
  | cache a =>
    simp only [next?] at h
    split at h
    case isTrue ht =>
      obtain ⟨cache, hc, rfl⟩ := Option.map_eq_some_iff.mp h
      refine .cache (fun time htime => ?_) (Cache.next?_eq_some_iff.mp hc)
      simpa [htime] using ht
    case isFalse => cases h
  | own i pipeline handOff =>
    simp only [next?] at h
    split at h
    case h_1 hp =>
      cases h
      exact .own hp
    case h_2 => cases h
  | feed i a =>
    obtain ⟨feed, fed, hp, hf, rfl⟩ := State.drive_eq_some h
    exact .feed hp hf
  | drop i =>
    obtain ⟨feed, fed, hp, hf, rfl⟩ := State.drive_eq_some h
    exact .drop hp hf
  | pass time =>
    simp only [next?] at h
    split at h
    case isTrue ht =>
      cases h
      refine .pass ht.1 fun i feed hp => ?_
      obtain ⟨call, hcall, hpipe⟩ := Option.map_eq_some_iff.mp hp
      have hlets := List.all_eq_true.mp ht.2 call (List.mem_of_getElem? hcall)
      simp only [hpipe] at hlets
      obtain ⟨fed, hf⟩ := Option.isSome_iff_exists.mp hlets
      have hpass := TimedFeed.stepping hf
      rw [hf]
      cases hpass
      rfl
    case isFalse => cases h

/-! What one step does. -/

variable {limits : ReplayLimits} {s s' : State κ} {a : Action κ} {i c n : Nat} {pipeline : Pipeline}
  {handOff : HandOff Unit Row} {answer : Option (Except (CacheError κ) RowSequence)}

omit [DecidableEq κ] in
theorem Pipe.hear_eq_native {id : SessionId} {pipe : Pipe}
    (h : pipe.hear limits id answer = .native pipeline handOff) :
    pipe = .native pipeline handOff ∧ ∀ rows, answer ≠ some (.ok rows) := by
  unfold hear at h
  split at h
  case h_1 => cases h
  case h_2 hno => exact ⟨h, fun rows hrows => hno _ _ rows h hrows⟩

omit [DecidableEq κ] in
theorem Pipe.hear_native {id : SessionId} (h : ∀ rows, answer ≠ some (.ok rows)) :
    (native pipeline handOff).hear limits id answer = .native pipeline handOff := by
  unfold hear
  split
  case h_1 hrows => exact (h _ rfl).elim
  case h_2 => rfl

/-- Whoever has been given rows has a pipeline that is armed. -/
def Heard (s : State κ) : Prop :=
  ∀ i pipeline handOff, s.pipe? i = some (.native pipeline handOff) →
    ∀ rows, s.answer? i ≠ some (.ok rows)

omit [DecidableEq κ] in
theorem heard_hear (s : State κ) (cache : Cache.State κ RowSequence) :
    Heard (s.hear limits cache) := by
  intro i pipeline handOff hp
  rw [State.pipe?_hear] at hp
  obtain ⟨pipe, -, hpipe⟩ := Option.map_eq_some_iff.mp hp
  exact (Pipe.hear_eq_native hpipe).2

omit [DecidableEq κ] in
theorem heard_setPipe {pipe : Pipe} (hs : Heard s)
    (hp : ∀ pipeline handOff, pipe = .native pipeline handOff →
      ∃ p h, s.pipe? i = some (.native p h)) : Heard (s.setPipe i pipe) := by
  intro j pipeline handOff hpj rows
  rw [State.answer?_setPipe]
  rw [State.pipe?_setPipe] at hpj
  split at hpj
  case isTrue hij =>
    subst hij
    obtain ⟨_, -, hpipe⟩ := Option.map_eq_some_iff.mp hpj
    obtain ⟨p, h, hnative⟩ := hp pipeline handOff hpipe
    exact hs i p h hnative rows
  case isFalse => exact hs j pipeline handOff hpj rows

theorem Stepping.heard (h : Stepping limits s a s') (hs : Heard s) : Heard s' := by
  cases h with
  | call | cache => exact heard_hear _ _
  | own hp => exact heard_setPipe hs fun _ _ _ => ⟨_, _, hp⟩
  | feed | drop => exact heard_setPipe hs nofun
  | pass => exact hs

theorem Stepping.caller? (h : Stepping limits s a s') (hc : s.caller? i = some c) :
    s'.caller? i = some c := by
  cases h with
  | call =>
    have hi := State.ne_length hc
    simpa [State.caller?_accept, hi] using hc
  | cache | own | feed | drop => simpa using hc
  | pass => exact hc

/-- A pipeline that is not armed goes by what its call is told, unless others do something with it. -/
theorem Stepping.native (h : Stepping limits s a s') (hs : Heard s)
    (hp : s.pipe? i = some (.native pipeline handOff))
    (ha : ∀ p h, a ≠ .own i p h) :
    s'.pipe? i =
      some ((Pipe.native pipeline handOff).hear limits (.numbered i) (s'.answer? i)) := by
  have hsame : s'.pipe? i = s.pipe? i → s'.answer? i = s.answer? i →
      s'.pipe? i =
        some ((Pipe.native pipeline handOff).hear limits (.numbered i) (s'.answer? i)) := by
    intro hpipe hans
    rw [hpipe, hans, hp, Pipe.hear_native (hs i pipeline handOff hp)]
  cases h with
  | call =>
    have hi := State.ne_length hp
    simp [State.pipe?_hear, State.pipe?_accept, hi, hp]
  | cache => simp [State.pipe?_hear, hp]
  | @own j =>
    have hji : j ≠ i := by
      rintro rfl
      exact ha _ _ rfl
    exact hsame (by simp [State.pipe?_setPipe, hji]) (by simp)
  | @feed j _ _ _ hpj | @drop j _ _ hpj =>
    have hji : j ≠ i := by
      rintro rfl
      simp [hp] at hpj
    exact hsame (by simp [State.pipe?_setPipe, hji]) (by simp)
  | pass => exact hsame rfl rfl

/-- What an action means for a pipeline that is armed. -/
def Action.feedAction? (i : Nat) : Action κ → Option TimedFeed.Action
  | .feed j a => if j = i then some (.act a) else none
  | .drop j => if j = i then some .dropPipeline else none
  | .pass time => some (.pass time)
  | _ => none

/-- What an action means for the cache. -/
def Action.cacheAction? : Action κ → Option (Cache.Action κ RowSequence)
  | .call k time _ _ => some (.get k time)
  | .cache a => some a
  | _ => none

theorem Stepping.cache_step (h : Stepping limits s a s') :
    match a.cacheAction? with
    | some b => Cache.Step s.cache b s'.cache
    | none => s'.cache = s.cache := by
  cases h with
  | call _ hc | cache _ hc => exact hc
  | _ => rfl

omit [DecidableEq κ] in
/-- Of all pipelines that are armed only the one that is driven goes on. -/
theorem fed_setPipe {j : Nat} {b : TimedFeed.Action} {feed other : Feed} {fed : TimedFeed}
    (hp : s.pipe? i = some (.fed feed)) (hpj : s.pipe? j = some (.fed other))
    (hf : TimedFeed.next? ⟨other, s.now⟩ b = some fed) (hnow : fed.now = s.now) :
    ∃ feed', (s.setPipe j (.fed fed.feed)).pipe? i = some (.fed feed') ∧
      TimedFeed.Goes ⟨feed, s.now⟩ ⟨feed', s.now⟩ (if j = i then some b else none) := by
  rw [State.pipe?_setPipe, hp]
  by_cases hji : j = i
  · subst hji
    obtain rfl : feed = other := by simpa [hp] using hpj
    refine ⟨fed.feed, by simp, ?_⟩
    rw [if_pos rfl, ← hnow]
    rwa [← hnow] at hf
  · rw [if_neg hji, if_neg hji]
    exact ⟨feed, rfl, rfl⟩

/-- A pipeline that is armed goes on by itself. -/
theorem Stepping.fed {feed : Feed} (h : Stepping limits s a s') (hp : s.pipe? i = some (.fed feed)) :
    ∃ feed', s'.pipe? i = some (.fed feed') ∧
      TimedFeed.Goes ⟨feed, s.now⟩ ⟨feed', s'.now⟩ (a.feedAction? i) := by
  cases h with
  | call =>
    have hi := State.ne_length hp
    exact ⟨feed, by simp [State.pipe?_hear, State.pipe?_accept, hi, hp, Pipe.hear], rfl⟩
  | cache => exact ⟨feed, by simp [State.pipe?_hear, hp, Pipe.hear], rfl⟩
  | @own j _ _ _ _ hpj =>
    have hji : j ≠ i := by
      rintro rfl
      simp [hp] at hpj
    exact ⟨feed, by simp [State.pipe?_setPipe, hji, hp], rfl⟩
  | feed hpj hf => exact fed_setPipe hp hpj hf (by cases TimedFeed.stepping hf; rfl)
  | drop hpj hf => exact fed_setPipe hp hpj hf (by cases TimedFeed.stepping hf; rfl)
  | pass ht hf => exact ⟨feed, hp, hf i feed hp⟩

end Service

end RowReplay
