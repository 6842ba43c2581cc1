import RowReplay.Cache.Error
import RowReplay.Cache.Table

/-!
A cache that reloads itself. Every operation is one step on its state: deciding on a request,
beginning and finishing a load, and invalidating. Loads are registered in one list, in generation
order; a key's pending slot names its latest load, and a load registered behind an invalidated one
begins only after that one has finished.
-/
namespace RowReplay

/-- The slot of a key's latest unfinished load. -/
structure PendingLoad where
  generation : Nat
  invalidated : Bool
  deriving DecidableEq, Inhabited

/-- How far a registered load has come. -/
inductive LoadPhase (ν : Type)
  /-- The loader has not been called. -/
  | queued
  /-- The loader works. -/
  | running
  /-- The entry for those who wait, or none if the loader crashed. -/
  | finished (entry : Option (Entry ν))

/-- A registered load. -/
structure Load (κ ν : Type) where
  key : κ
  /-- The invalidated load of the same key that finishes first. -/
  predecessor : Option Nat
  phase : LoadPhase ν

/-- Counts of what the cache has done. -/
structure Counters where
  hits : Nat
  staleHits : Nat
  misses : Nat
  loadsStarted : Nat
  loadFailures : Nat
  deriving DecidableEq, Inhabited

def Counters.zero : Counters := ⟨0, 0, 0, 0, 0⟩

/-- A snapshot of the cache for reports. -/
structure CacheStats where
  entries : Nat
  pendingLoads : Nat
  hits : Nat
  staleHits : Nat
  misses : Nat
  loadsStarted : Nat
  loadFailures : Nat
  deriving DecidableEq, Inhabited

structure Cache (κ ν : Type) where
  policy : FreshnessPolicy
  entries : Table κ (Entry ν)
  pending : Table κ PendingLoad
  counters : Counters
  /-- The loads by generation. -/
  loads : List (Load κ ν)

/-- What a request found. -/
inductive Decision (ν : Type)
  /-- A fresh entry, served. -/
  | hit (entry : Entry ν)
  /-- An entry past its refresh point, served while a load goes on. -/
  | staleHit (entry : Entry ν)
  /-- No entry to serve: the request waits for this load. -/
  | miss (generation : Nat)

/-- What the loader answered; `none` when it crashed. -/
abbrev LoadResult (ν : Type) := Option (Except LoadError ν)

namespace Cache

variable {κ ν : Type} [DecidableEq κ]

def empty (policy : FreshnessPolicy) : Cache κ ν := ⟨policy, .empty, .empty, .zero, []⟩

/-- The entry of a key, without loading or refreshing. -/
def peek (c : Cache κ ν) (k : κ) : Option (Entry ν) := c.entries.get? k

/-- A load of the key has not finished. -/
def isLoading (c : Cache κ ν) (k : κ) : Bool := c.pending.contains k

def stats (c : Cache κ ν) : CacheStats where
  entries := c.entries.size
  pendingLoads := c.pending.size
  hits := c.counters.hits
  staleHits := c.counters.staleHits
  misses := c.counters.misses
  loadsStarted := c.counters.loadsStarted
  loadFailures := c.counters.loadFailures

/-- Registers a load behind a predecessor; its generation is its place in the list. -/
def register (c : Cache κ ν) (k : κ) (predecessor : Option Nat) : Cache κ ν :=
  { c with
    loads := c.loads ++ [⟨k, predecessor, .queued⟩]
    pending := c.pending.insert k ⟨c.loads.length, false⟩
    counters := { c.counters with loadsStarted := c.counters.loadsStarted + 1 } }

/-- The load that a request for the key goes with, and whether it is new. An invalidated load is not
joined: a new one takes its slot and waits for it. -/
def joinOrStart (c : Cache κ ν) (k : κ) : Cache κ ν × Nat × Bool :=
  match c.pending.get? k with
  | some slot =>
    if slot.invalidated then (c.register k (some slot.generation), c.loads.length, true)
    else (c, slot.generation, false)
  | none => (c.register k none, c.loads.length, true)

/-- Decides on a request for a key. The last part is the load it registered, if any. -/
def request (c : Cache κ ν) (k : κ) (now : ClockReading) :
    Cache κ ν × Decision ν × Option Nat :=
  let joined := c.joinOrStart k
  let started := if joined.2.2 then some joined.2.1 else none
  let wait (c : Cache κ ν) : Cache κ ν × Decision ν × Option Nat :=
    ({ c with counters := { c.counters with misses := c.counters.misses + 1 } },
      .miss joined.2.1, started)
  match c.entries.get? k with
  | none => wait joined.1
  | some entry =>
    match entry.freshness c.policy now with
    | .fresh =>
      ({ c with counters := { c.counters with hits := c.counters.hits + 1 } }, .hit entry, none)
    | .refreshAhead =>
      let c := joined.1
      ({ c with counters := { c.counters with staleHits := c.counters.staleHits + 1 } },
        .staleHit entry, started)
    | .expired => wait joined.1

/-- Moves a load to a phase. -/
def setPhase (c : Cache κ ν) (g : Nat) (phase : LoadPhase ν) : Cache κ ν :=
  { c with loads := c.loads.modify g fun load => { load with phase := phase } }

/-- The load's predecessor, if any, has finished. -/
def isReady (c : Cache κ ν) (load : Load κ ν) : Bool :=
  match load.predecessor with
  | none => true
  | some p =>
    match c.loads[p]? with
    | some ⟨_, _, .finished _⟩ => true
    | _ => false

/-- The loader is called for a load. -/
def begin (c : Cache κ ν) (g : Nat) : Cache κ ν := c.setPhase g .running

/-- The load holds its key's slot, invalidated or not. -/
def ownsSlot (c : Cache κ ν) (k : κ) (g : Nat) : Bool :=
  match c.pending.get? k with
  | some slot => slot.generation == g
  | none => false

/-- The load holds its key's slot and was not invalidated, so its entry will be installed. -/
def isCurrent (c : Cache κ ν) (k : κ) (g : Nat) : Bool :=
  match c.pending.get? k with
  | some slot => slot.generation == g && !slot.invalidated
  | none => false

/-- The entry that a load's result makes. A failure keeps a value that is still valid. -/
def entryOf (c : Cache κ ν) (k : κ) (now : ClockReading) : LoadResult ν → Option (Entry ν)
  | none => none
  | some (.ok value) => some (.loaded value now)
  | some (.error error) =>
    match c.entries.get? k with
    | some previous =>
      if previous.value.isSome && !(previous.freshness c.policy now).mustWait then
        some (previous.failedRefresh error)
      else some (.failed error now)
    | none => some (.failed error now)

/-- Finishes a load of a key: frees its slot, installs its entry if it is current, and keeps the
entry for those who wait. -/
def complete (c : Cache κ ν) (k : κ) (g : Nat) (now : ClockReading) (result : LoadResult ν) :
    Cache κ ν :=
  let entry := c.entryOf k now result
  let entries := match entry with
    | some e => if c.isCurrent k g then c.entries.insert k e else c.entries
    | none => c.entries
  let failures := match result with
    | some (.error _) => c.counters.loadFailures + 1
    | _ => c.counters.loadFailures
  let freed :=
    { c with
      pending := if c.ownsSlot k g then c.pending.erase k else c.pending
      entries := entries
      counters := { c.counters with loadFailures := failures } }
  freed.setPhase g (.finished entry)

/-- What a finished load answers to a request that waited for it. -/
def answer (k : κ) : Option (Entry ν) → Except (CacheError κ) ν
  | some entry => entry.result k
  | none => .error (.abandoned k)

/-- Drops the entry of a key; a load under way will not install its result. -/
def invalidate (c : Cache κ ν) (k : κ) : Cache κ ν :=
  { c with
    entries := c.entries.erase k
    pending := match c.pending.get? k with
      | some slot => c.pending.replace k { slot with invalidated := true }
      | none => c.pending }

/-- Drops every entry; no load under way will install its result. -/
def invalidateAll (c : Cache κ ν) : Cache κ ν :=
  { c with
    entries := .empty
    pending := c.pending.mapValues fun slot => { slot with invalidated := true } }

end Cache

end RowReplay
