import RowReplay.Proofs.Pipeline.Lifecycle
import RowReplay.Proofs.Simulation.Inlets
import RowReplay.Proofs.Simulation.Runs

/-!
Scenarios in which an owner and a consumer use one pipeline. What they keep of the scene, and the
task that puts rows into the pipeline as well, every such scenario keeps.
-/
namespace RowReplay.Simulation

/-- What the owner and the consumer of a pipeline do with it; the owner may be one who drops it. -/
def PipeStep.isUse (mayDrop : Bool) : PipeStep → Bool
  | .start | .stop | .abort | .finished | .state => true
  | .takeOutput | .receive _ | .consume | .dropOutput | .received _ => true
  | .dropPipe => mayDrop
  | _ => false

/-- A step that does no more than to use the pipeline, to let held tasks go on, or to let time
pass. -/
def Step.isUse (mayDrop : Bool) : Step → Bool
  | .advance _ | .release _ => true
  | .pipe _ step => step.isUse mayDrop
  | _ => false

/-- The time that a step lets pass. -/
def Step.millis : Step → Nat
  | .advance millis => millis
  | _ => 0

/-- A scene with a property is found in the world. -/
def Found (t : Task) (P : Scene → Prop) (w : World) : Prop := ∃ i, P i ∧ Shows t i w

/-- A property of scenes that is kept up to a time, whoever uses the pipeline. What those tasks do
that may put rows into it is said of the program itself. -/
structure Lasting (t : Task) (mayDrop : Bool) (limit : Nat) (P : Scene → Prop) : Prop where
  receive : ∀ {i handOff row next}, P i → i.handOff.receive = (handOff, some (row, next)) →
    P { i with handOff, received := i.received ++ [row] }
  close : ∀ {i}, P i → P { i with handOff := i.handOff.close.1 }
  finish : ∀ {i}, P i → P { i with isAccepting := false }
  operate : ∀ {i} (operation : Pipeline.Operation), P i → P (i.operate (·.operate operation))
  forget : mayDrop = true → ∀ {i}, P i → P (i.operate Pipeline.forgetListeners)
  pass : ∀ {i time}, P i → i.now ≤ time → time ≤ limit → P { i with now := time }
  session : ∀ {i w} (r : Nat), P i → Shows t i w → Found t P ((sessionTurn r).run w).2
  produce : ∀ {i w} (p : Nat), P i → Shows t i w → Found t P ((emitRows p roundBound).run w).2

variable {t : Task} {mayDrop : Bool} {limit : Nat} {P : Scene → Prop} {i : Scene} {w w' : World}

/-- What is found when nobody has done anything. -/
def Scene.fresh (branch : Branch) (capacity : Nat) : Scene where
  pipeline := .fresh branch
  handOff := .fresh capacity
  isAccepting := true
  received := []
  attempt := .none
  now := 0
  session _ := none
  producer _ := none

theorem Scenario.shows {s : Scenario} {branch : Branch} {capacity : Nat} (t : Task)
    (hp : s.pipes = [.bounded capacity branch]) : Shows t (.fresh branch capacity) s.world :=
  ⟨⟨.attached, 0, false, hp⟩, .none, Nat.zero_mul _, fun _ => rfl, fun _ => rfl, rfl, rfl, rfl⟩

/-! Tasks that find nothing to do. -/

namespace Shows

theorem getElem?_pipes (h : Shows t i w) (p : Nat) : w.pipes[p + 1]? = none := by
  obtain ⟨output, finishedCalls, isDropped, hp⟩ := h.pipes
  simp [hp]

theorem modifyOther (h : Shows t i w) (p : Nat) (f : Pipe → Pipe) :
    Shows t i ((Simulation.modifyPipe (p + 1) f).run w).2 := by
  obtain ⟨output, finishedCalls, isDropped, hp⟩ := h.pipes
  refine h.congr ?_
  have hsame : w.pipes.modify (p + 1) f = w.pipes := by simp [hp]
  exact congrArg (fun pipes => World.seen { w with pipes }) hsame

theorem closeOther (h : Shows t i w) (p : Nat) :
    Shows t i ((Simulation.closeOutput (p + 1)).run w).2 := by
  simp only [Simulation.closeOutput, run_get_bind, h.getElem?_pipes]
  exact h

/-- A producer that is not there emits nothing. -/
theorem emitRows {p : Nat} (h : Shows t i w) (hp : w.producers.get? p = none) (fuel : Nat) :
    Shows t i ((Simulation.emitRows p fuel).run w).2 := by
  cases fuel with
  | zero => exact h
  | succ fuel =>
    simp only [Simulation.emitRows, run_get_bind, hp]
    exact h

theorem sessionTurn {r : Nat} (h : Shows t i w) (hr : w.sessions.get? r = none) :
    Shows t i ((Simulation.sessionTurn r).run w).2 := by
  simp only [Simulation.sessionTurn, run_get_bind, hr]
  exact h

theorem requestTurn (h : Shows t i w) (n : Nat) :
    Shows t i ((Simulation.requestTurn n).run w).2 := by
  simp only [Simulation.requestTurn, run_get_bind, h.requests, List.getElem?_nil]
  exact h

theorem putTurn (h : Shows t i w) (n : Nat) : Shows t i ((Simulation.putTurn n).run w).2 := by
  simp only [Simulation.putTurn, run_get_bind, h.puts, List.getElem?_nil]
  exact h

theorem loadTurn (h : Shows t i w) (g : Nat) : Shows t i ((Simulation.loadTurn g).run w).2 := by
  have hdrive : (drive g (.task (.load g)) none).run w = ((none, false), w) := by
    simp only [drive, run_get_bind, h.works, List.length_nil]
    rfl
  simp only [Simulation.loadTurn, run_get_bind, h.works, List.getElem?_nil, Option.bind_none]
  rw [run_bind hdrive]
  refine h.congr ?_
  have hsame : w.works.modify g (fun work => { work with taskPlace := none }) = w.works := by
    simp [h.works]
  exact congrArg (fun works => World.seen { w with works }) hsame

theorem wakeParty (h : Shows t i w) (party : Party) :
    Shows t i ((Simulation.wakeParty party).run w).2 := by
  cases party with
  | task u => exact h.wakeTask u
  | load g =>
    simp only [Simulation.wakeParty, run_get_bind, h.works, List.length_nil]
    exact h

/-- The consumer of another pipeline, which is not there. -/
theorem consumeOther (h : Shows t i w) (p fuel : Nat) :
    Shows t i ((consume (p + 1) fuel).run w).2 := by
  cases fuel with
  | zero => exact h
  | succ fuel =>
    have hreceive : (Simulation.receiveRow (p + 1)).run w = (none, w) := by
      simp only [Simulation.receiveRow, run_get_bind, h.getElem?_pipes]
      rfl
    rw [consume, run_bind hreceive]
    simp only [run_get_bind]
    split
    · exact h.modifyOther p _
    · have hreported : Shows t i ((report ("c" ++ toString (p + 1)) .closed).run w).2 := h.congr rfl
      exact hreported.closeOther p

end Shows

namespace Found

theorem mono (h : Found t P w) (hs : ∀ i, Shows t i w → Shows t i w') : Found t P w' := by
  obtain ⟨i, hi, hw⟩ := h
  exact ⟨i, hi, hs i hw⟩

end Found

namespace Lasting

variable (h : Lasting t mayDrop limit P)
include h

/-! What those do who use the pipeline. -/

theorem receiveRow (hw : Found t P w) : Found t P ((Simulation.receiveRow 0).run w).2 := by
  obtain ⟨i, hi, hw⟩ := hw
  obtain ⟨-, hsame⟩ | ⟨handOff, row, next, hr, -, hnext⟩ := hw.receiveRow
  · exact ⟨i, hi, hsame⟩
  · exact ⟨_, h.receive hi hr, hnext⟩

theorem closeOutput (hw : Found t P w) : Found t P ((Simulation.closeOutput 0).run w).2 := by
  obtain ⟨i, hi, hw⟩ := hw
  exact ⟨_, h.close hi, hw.closeOutput⟩

theorem operation (hw : Found t P w) (operation : Pipeline.Operation) :
    Found t P ((Simulation.operate 0 (·.operate operation)).run w).2 := by
  obtain ⟨i, hi, hw⟩ := hw
  exact ⟨_, h.operate operation hi, hw.operate _⟩

/-- The consumer reads to the end, or until it has to wait. -/
theorem consume (hw : Found t P w) (fuel : Nat) :
    Found t P ((Simulation.consume 0 fuel).run w).2 := by
  induction fuel generalizing w with
  | zero => exact hw
  | succ fuel ih =>
    have hreceive := h.receiveRow hw
    obtain ⟨row, w', hrun⟩ : ∃ row w', (Simulation.receiveRow 0).run w = (row, w') := ⟨_, _, rfl⟩
    rw [hrun] at hreceive
    rw [Simulation.consume, run_bind hrun]
    cases row with
    | some row => exact ih hreceive
    | none =>
      simp only [run_get_bind]
      split
      · refine hreceive.mono fun i hw => hw.modifyPipe fun output _ _ => ?_
        cases output <;> exact ⟨_, _, _, rfl⟩
      · exact h.closeOutput (hreceive.mono fun i hw => hw.congr rfl)

theorem takeTurn (hw : Found t P w) (u : Task) : Found t P ((Simulation.takeTurn u).run w).2 := by
  cases u with
  | request n => exact hw.mono fun _ hw => hw.requestTurn n
  | load g => exact hw.mono fun _ hw => hw.loadTurn g
  | put n => exact hw.mono fun _ hw => hw.putTurn n
  | session r =>
    obtain ⟨i, hi, hw⟩ := hw
    exact h.session r hi hw
  | producer p =>
    obtain ⟨i, hi, hw⟩ := hw
    exact h.produce p hi hw
  | consumer p =>
    cases p with
    | zero => exact h.consume hw roundBound
    | succ p => exact hw.mono fun _ hw => hw.consumeOther p roundBound

theorem settleFor (hw : Found t P w) (fuel : Nat) :
    Found t P ((Simulation.settleFor fuel).run w).2 := by
  induction fuel generalizing w with
  | zero => exact hw
  | succ fuel ih =>
    simp only [Simulation.settleFor, run_get_bind]
    cases hb : w.agenda.beginTurn with
    | none => exact hw
    | some turn =>
      obtain ⟨u, agenda⟩ := turn
      have hbegun : Found t P { w with agenda } :=
        hw.mono fun _ hw => hw.setAgenda (quiet_beginTurn hb).now
      have hturn := h.takeTurn hbegun u
      exact ih (hturn.mono fun _ hw => hw.setAgenda (quiet_endTurn _).now)

theorem settle (hw : Found t P w) : Found t P (Simulation.settle.run w).2 :=
  h.settleFor hw roundBound

/-- The clock moves on. -/
theorem moveClock {time : Nat} (hw : Found t P w) (ht : w.agenda.now ≤ time)
    (hl : time * Span.nanosPerMilli ≤ limit) :
    Found t P ((Simulation.moveClock time).run w).2 := by
  obtain ⟨i, hi, hw⟩ := hw
  have hnow : i.now ≤ time * Span.nanosPerMilli := by
    rw [← hw.now]
    exact Nat.mul_le_mul_right _ ht
  have hmoved : Found t P { w with agenda := (w.agenda.moveTo time).1 } :=
    ⟨_, h.pass hi hnow hl, hw.pipes, hw.attempt, rfl, hw.session, hw.producer, hw.requests, hw.puts,
      hw.works⟩
  exact run_forM hmoved fun party _ hw => hw.mono fun _ hw => hw.wakeParty party

/-! The steps of a scenario. -/

theorem receiveNow (hw : Found t P w) (n : Nat) (rows : RowSequence) :
    Found t P ((Simulation.receiveNow 0 n rows).run w).2 := by
  induction n generalizing w rows with
  | zero => exact hw
  | succ n ih =>
    have hreceive := h.receiveRow hw
    obtain ⟨row, w', hrun⟩ : ∃ row w', (Simulation.receiveRow 0).run w = (row, w') := ⟨_, _, rfl⟩
    rw [hrun] at hreceive
    rw [Simulation.receiveNow, run_bind hrun]
    cases row with
    | some row => exact ih (h.settle hreceive) (rows ++ [row])
    | none => exact hreceive

/-- A pipeline goes that its owner has dropped. -/
theorem releasePipe (hd : mayDrop = true) (hw : Found t P w) :
    Found t P ((Simulation.releasePipe 0).run w).2 := by
  obtain ⟨i, hi, hw⟩ := hw
  obtain ⟨output, finishedCalls, isDropped, hp⟩ := hw.pipes
  simp only [Simulation.releasePipe, run_get_bind, hp, Scene.pipe, List.getElem?_cons_zero]
  have hforgot : Found t P ((Simulation.operate 0 Pipeline.forgetListeners).run w).2 :=
    ⟨_, h.forget hd hi, hw.operate _⟩
  split
  case isTrue =>
    cases output with
    | consumed => exact hforgot.mono fun _ hw => hw.noticeStreamEnd
    | _ => exact (h.closeOutput hforgot).mono fun _ hw => hw.noticeStreamEnd
  case isFalse => exact ⟨i, hi, hw⟩

theorem performOn {pipe : Pipe} {step : PipeStep} (hs : step.isUse mayDrop = true)
    (hp : isScripted pipe = false) (hw : Found t P w) :
    Found t P ((Simulation.performOn 0 pipe step).run w).2 := by
  have houtput (output : Output) (w : World) (hw : Found t P w) :
      Found t P ((setOutput 0 output).run w).2 :=
    hw.mono fun _ hw => hw.modifyPipe fun _ _ _ => ⟨_, _, _, rfl⟩
  cases step with
  | start => exact h.operation hw .start
  | stop => exact h.operation hw .stop
  | abort =>
    simp only [Simulation.performOn, hp, Bool.false_eq_true, if_false]
    exact h.operation hw .abort
  | state => exact hw
  | received field => cases field <;> exact hw
  | finished =>
    obtain ⟨i, hi, hw⟩ := hw
    exact ⟨_, h.finish hi, hw.finishInput⟩
  | takeOutput =>
    simp only [Simulation.performOn]
    split
    · exact houtput .taken w hw
    · exact hw
  | receive n =>
    simp only [Simulation.performOn]
    split
    · exact h.receiveNow hw n []
    · exact hw
  | consume =>
    simp only [Simulation.performOn]
    split
    · exact (houtput (.consumed false) w hw).mono fun _ hw => hw.wakeTask (.consumer 0)
    · exact hw.mono fun _ hw => hw.congr rfl
  | dropOutput =>
    simp only [Simulation.performOn]
    split
    · exact h.closeOutput hw
    · exact hw
  | dropPipe =>
    have hdropped (w : World) (hw : Found t P w) : Found t P
        ((Simulation.modifyPipe 0 fun pipe => { pipe with isDropped := true }).run w).2 :=
      hw.mono fun _ hw => hw.modifyPipe fun _ _ _ => ⟨_, _, _, rfl⟩
    simp only [Simulation.performOn]
    split
    · exact h.releasePipe hs (hdropped _ (h.closeOutput hw))
    · exact h.releasePipe hs (hdropped w hw)
  | _ => cases hs

end Lasting

/-- Those that were held wake up. -/
theorem Found.release (hw : Found t P w) (n : Option Nat) :
    Found t P ((Simulation.release n).run w).2 := by
  have hfreed (held : List Task) : Found t P { w with held } := hw.mono fun _ hw => hw.congr rfl
  exact run_forM (hfreed _) fun u _ hw => hw.mono fun _ hw => hw.wakeTask u

/-- What is known of the world between two steps: how late it is, and that the scene is there. -/
structure Known (policy : FreshnessPolicy) (time : Nat) (t : Task) (P : Scene → Prop) (w : World) :
    Prop where
  linked : Linked policy w
  now : w.agenda.now ≤ time
  found : Found t P w

namespace Known

variable {policy : FreshnessPolicy} {time : Nat}

/-- What takes no time leaves the time as it is. -/
theorem of_keeps {α : Type} {c : Sim α} (hk : Known policy time t P w)
    (hc : ∀ a : Assertion, a.IsLink policy → Keeps a c) (hf : Found t P (c.run w).2) :
    Known policy time t P (c.run w).2 := by
  obtain ⟨hlinked, hnow⟩ := spec_of_keeps policy hc time w ⟨hk.linked, hk.now⟩
  exact ⟨hlinked, hnow, hf⟩

theorem settle (hk : Known policy time t P w) (h : Lasting t mayDrop limit P) :
    Known policy time t P (Simulation.settle.run w).2 :=
  hk.of_keeps (fun _ => settle_keeps) (h.settle hk.found)

theorem passTime (hk : Known policy time t P w) (h : Lasting t mayDrop limit P)
    (hl : time * Span.nanosPerMilli ≤ limit) (fuel : Nat) :
    Known policy time t P ((Simulation.passTime time fuel).run w).2 := by
  induction fuel generalizing w with
  | zero => exact hk
  | succ fuel ih =>
    simp only [Simulation.passTime, run_get_bind]
    cases hd : w.agenda.nextDue? time with
    | none =>
      obtain ⟨hlinked, hnow⟩ := moveClock_spec policy time w ⟨hk.linked, hk.now⟩
      exact ⟨hlinked, hnow.le, h.moveClock hk.found hk.now hl⟩
    | some due =>
      obtain ⟨hle, hdue⟩ := le_nextDue? hk.linked.timers hd
      obtain ⟨hlinked, hnow⟩ := moveClock_spec policy due w ⟨hk.linked, hle⟩
      have hmoved := h.moveClock hk.found hle ((Nat.mul_le_mul_right _ hdue).trans hl)
      exact ih ((Known.mk hlinked (hnow.le.trans hdue) hmoved).settle h)

theorem perform {step : Step} (hk : Known policy time t P w) (h : Lasting t mayDrop limit P)
    (hs : step.isUse mayDrop = true) (hl : (time + step.millis) * Span.nanosPerMilli ≤ limit) :
    Known policy (time + step.millis) t P ((Simulation.perform step).run w).2 := by
  cases step with
  | advance millis =>
    have hsettled := hk.settle h
    have hle : (Simulation.settle.run w).2.agenda.now + millis ≤ time + millis :=
      Nat.add_le_add_right hsettled.now millis
    have hsoon : Known policy ((Simulation.settle.run w).2.agenda.now + millis) t P
        (Simulation.settle.run w).2 :=
      ⟨hsettled.linked, Nat.le_add_right .., hsettled.found⟩
    have hpassed := hsoon.passTime h ((Nat.mul_le_mul_right _ hle).trans hl) roundBound
    exact ⟨hpassed.linked, hpassed.now.trans hle, hpassed.found⟩
  | release n => exact hk.of_keeps (fun _ _ => release_keeps n) (hk.found.release n)
  | pipe p step =>
    obtain ⟨i, hi, hw⟩ := hk.found
    obtain ⟨output, finishedCalls, isDropped, hp⟩ := hw.pipes
    cases p with
    | succ p =>
      simp only [Simulation.perform, run_get_bind, hw.getElem?_pipes]
      exact hk
    | zero =>
      simp only [Simulation.perform, run_get_bind, hp, List.getElem?_cons_zero]
      split
      · exact hk
      · exact hk.of_keeps (fun _ ha => performOn_keeps ha 0 _ step) (h.performOn hs rfl hk.found)
  | _ => cases hs

/-- A step of a scenario. -/
theorem step {step : Step} (hk : Known policy time t P w) (h : Lasting t mayDrop limit P)
    (hs : step.isUse mayDrop = true) (hl : (time + step.millis) * Span.nanosPerMilli ≤ limit) :
    Known policy (time + step.millis) t P ((Simulation.step step).run w).2 := by
  have hcleared : Known policy time t P
      { w with done := [], started := [], log := [], fired := [] } :=
    ⟨hk.linked.quiet (.sameWorks rfl rfl rfl rfl), hk.now, hk.found.mono fun _ hw => hw.congr rfl⟩
  exact (hcleared.perform h hs hl).settle h

/-- The steps of a scenario. -/
theorem run {steps : List Step} (hk : Known policy time t P w) (h : Lasting t mayDrop limit P)
    (hs : ∀ step ∈ steps, step.isUse mayDrop = true)
    (hl : (time + (steps.map Step.millis).sum) * Span.nanosPerMilli ≤ limit) :
    Known policy (time + (steps.map Step.millis).sum) t P ((Simulation.run steps).run w).2 := by
  induction steps generalizing time w with
  | nil => exact hk
  | cons step steps ih =>
    rw [List.map_cons, List.sum_cons, ← Nat.add_assoc] at hl ⊢
    have hstep : Known policy (time + step.millis) t P ((Simulation.step step).run w).2 := by
      refine hk.step h (hs step List.mem_cons_self) ((Nat.mul_le_mul_right _ ?_).trans hl)
      exact Nat.le_add_right ..
    rw [Simulation.run, List.mapM_cons]
    exact ih hstep (fun later hm => hs later (List.mem_cons_of_mem _ hm)) hl

end Known

end RowReplay.Simulation
