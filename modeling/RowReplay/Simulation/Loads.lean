import RowReplay.Simulation.World

/-!
Driving loads. A load is lazy: it goes on only when someone looks at it, and whoever looks takes it
as far as it can go. A load behind another first takes that one to its end. A load whose delay has
passed while nobody looked completes when it is next looked at.
-/
namespace RowReplay.Simulation

/-- Tells those who wait for a load. Loads that wait for it tell theirs in turn; they are younger,
so the number of loads bounds the chain. -/
def notifyLoad : Nat → Nat → Sim Unit
  | 0, _ => pure ()
  | fuel + 1, g => do
    let w ← get
    match w.works[g]? with
    | none => pure ()
    | some work =>
      modifyWork g fun work => { work with waiters := work.waiters.disarm }
      for party in work.waiters.armed do
        match party with
        | .task t => wakeTask t
        | .load later => notifyLoad fuel later

/-- Tells a party that something has happened. -/
def wakeParty : Party → Sim Unit
  | .task t => wakeTask t
  | .load g => do notifyLoad ((← get).works.length) g

/-- Arms a party among those who wait for a load. -/
def armWaiter (g : Nat) (place : Option Nat) (party : Party) : Sim (Option Nat) := do
  match (← get).works[g]? with
  | none => return none
  | some work =>
    let (waiters, place) := work.waiters.arm place party
    modifyWork g fun work => { work with waiters := waiters }
    return some place

def countIn (t : Table Key Nat) (k : Key) : Nat := (t.get? k).getD 0

/-- Calls the loader for a load. -/
def beginCall (g : Nat) (k : Key) : Sim RunningCall := do
  modifyCache (·.begin g)
  let w ← get
  let number := countIn w.calls k + 1
  let active := countIn w.active k + 1
  let call := w.script.call k number
  let running : RunningCall := ⟨call, number, w.agenda.now + call.delay⟩
  set { w with
    calls := w.calls.insert k number
    active := w.active.insert k active
    peak := w.peak.insert k (max active (countIn w.peak k))
    started := w.started ++ [Started.mk w.agenda.now k number] }
  modifyWork g fun work => { work with running := some running }
  if 0 < call.delay then modifyAgenda (·.setTimer running.due (.load g))
  return running

/-- The loader's answer arrives: the load completes and everyone who waits is told. -/
def completeCall (g : Nat) (k : Key) (running : RunningCall) : Sim Unit := do
  let w ← get
  let result := running.call.result k running.number
  let events : List (CacheEvent Key) := w.cache.completionEvents k g result
  set { w with
    agenda := w.agenda.cancelTimer (.load g)
    active := w.active.insert k (countIn w.active k - 1)
    log := w.log ++ events.map (CacheEvent.line Key.quoted)
    cache := w.cache.complete k g w.reading result }
  notifyLoad w.works.length g

/-- Takes a load as far as it goes, for a party that waits in a place if it has one. Answers with
the party's place and whether the load has finished. Predecessors are older, so the number of loads
bounds the chain. -/
def driveLoad : Nat → Nat → Party → Option Nat → Sim (Option Nat × Bool)
  | 0, _, _, place => return (place, false)
  | fuel + 1, g, party, place => do
    match (← get).cache.loads[g]? with
    | none => return (place, false)
    | some load =>
      if let .finished _ := load.phase then return (place, true)
      let place ← armWaiter g place party
      let ready ← match load.phase, load.predecessor with
        | .queued, some p => do
          let own := ((← get).works[g]?).bind (·.predecessorPlace)
          let (own, finished) ← driveLoad fuel p (.load g) own
          modifyWork g fun work => { work with predecessorPlace := own }
          pure finished
        | _, _ => pure true
      if !ready then return (place, false)
      let running ← match ((← get).works[g]?).bind (·.running) with
        | some running => pure running
        | none => beginCall g load.key
      if running.due ≤ (← now) then
        completeCall g load.key running
        return (place, true)
      else return (place, false)

/-- Takes a load as far as it goes. -/
def drive (g : Nat) (party : Party) (place : Option Nat) : Sim (Option Nat × Bool) := do
  driveLoad ((← get).works.length) g party place

/-- The executor's task of a load has its turn. -/
def loadTurn (g : Nat) : Sim Unit := do
  let place := ((← get).works[g]?).bind (·.taskPlace)
  let (place, _) ← drive g (.task (.load g)) place
  modifyWork g fun work => { work with taskPlace := place }

/-- The entry of a finished load, for those who waited. -/
def outcomeOf (w : World) (g : Nat) : Option (Entry Loaded) :=
  match w.cache.loads[g]? with
  | some ⟨_, _, .finished entry⟩ => entry
  | _ => none

end RowReplay.Simulation
