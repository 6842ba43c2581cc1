import RowReplay.Proofs.Simulation.Usage

/-!
A pipeline of a simulation that runs its own producer. Each of the producer's turns, and all that is
done to the pipeline around them, is a few steps of a production; so the simulation goes through the
states of a run of the production.
-/
namespace RowReplay

open Simulation

namespace Production

/-! The world as the producer finds it. -/

/-- What the producer has still to emit, while it emits. -/
def emission? (p : Production) : Option Emission :=
  match p.stage with
  | .emitting e => some e
  | _ => none

/-- What the producer finds. -/
def scene (p : Production) : Scene where
  pipeline := p.pipeline
  handOff := p.handOff
  isAccepting := p.isAccepting
  received := p.received
  attempt := p.attempt
  now := p.now
  session _ := none
  producer := Function.update (fun _ => none) 0 p.emission?

variable {p p' : Production} {e : Emission} {row : Row} {branch : Branch}
  {capacity : Nat} {w : World}

@[simp] theorem producer_scene : p.scene.producer 0 = p.emission? := by simp [scene]

theorem scene_operate (p : Production) (operation : Pipeline → Pipeline × List PipelineEffect) :
    p.scene.operate operation = (p.operate operation).scene := by
  refine (Scene.foldl_hear _ _ fun _ => rfl).trans ?_
  cases hany : (operation p.pipeline).2.any (·.isEmission) <;>
    simp [scene, operate, emission?, hany]

/-! What the producer does. -/

/-- A production that can be reached shows in a scene. -/
def ShownIn (branch : Branch) (capacity : Nat) (i : Scene) : Prop :=
  ∃ p, Reaches next? (fresh branch capacity) p ∧ p.scene = i

/-- A production that can be reached differs from another at most by how far its attempt to put a
row has come. -/
def Tries (branch : Branch) (capacity : Nat) (p : Production) (handOff : HandOff Unit Row)
    (attempt : Attempt) : Prop :=
  ∃ p', Reaches next? (fresh branch capacity) p' ∧ p'.stage = p.stage ∧
    p'.scene = { p.scene with handOff, attempt }

/-- The attempt has come further. -/
theorem Tries.trans {p'' : Production} {handOff handOff' : HandOff Unit Row}
    {attempt attempt' : Attempt} (hi : p'.scene = { p.scene with handOff, attempt })
    (hp : Reaches next? (fresh branch capacity) p'') (hs : p''.stage = p.stage)
    (hi' : p''.scene = { p'.scene with handOff := handOff', attempt := attempt' }) :
    Tries branch capacity p handOff' attempt' := ⟨p'', hp, hs, by rw [hi', hi]⟩

/-- The producer's attempt to put a row goes as the production's. -/
theorem attempts (hs : p.stage = .emitting e) (hr : e.next? = some row) :
    p.scene.Attempts row producerTimeout (Tries branch capacity p) where
  enter := by
    rintro handOff ⟨p', hp, hsame, hi⟩
    have ha : p'.attempt = .none := congrArg Scene.attempt hi
    have hpipe : p'.pipeline = p.scene.pipeline := congrArg Scene.pipeline hi
    have hh : p'.handOff = handOff := congrArg Scene.handOff hi
    have hnext : p'.next? .enter = some { p' with
        attempt := if p'.pipeline.running then .entered else .answered false } := by
      simp only [next?, ha, onOffer?, hsame, hs, hr]
    rw [← hpipe, ← hh]
    exact .trans hi (hp.step hnext) hsame rfl
  shutOut := by
    rintro hn handOff ⟨p', hp, hsame, hi⟩
    have ha : p'.attempt = .entered := congrArg Scene.attempt hi
    have hn : p'.isAccepting = false := (congrArg Scene.isAccepting hi).trans hn
    have hh : p'.handOff = handOff := congrArg Scene.handOff hi
    have hnext : p'.next? .offer = some { p' with attempt := .answered false } := by
      simp [next?, ha, onOffer?, hsame, hs, hr, hn]
    rw [← hh]
    exact .trans hi (hp.step hnext) hsame rfl
  offer := by
    rintro hn handOff handOff' offer ⟨p', hp, hsame, hi⟩ hoffer
    have ha : p'.attempt = .entered := congrArg Scene.attempt hi
    have hn : p'.isAccepting = true := (congrArg Scene.isAccepting hi).trans hn
    have hh : p'.handOff = handOff := congrArg Scene.handOff hi
    have hnow : p'.now = p.scene.now := congrArg Scene.now hi
    have hnext : p'.next? .offer = some (p'.hearOffer row
        (p.scene.now + producerTimeout.nanos) handOff' offer) := by
      simp only [next?, ha, onOffer?, hsame, hs, hr, hn, if_true, hh, hoffer, hnow]
    cases offer <;> exact .trans hi (hp.step hnext) hsame rfl
  review := by
    rintro handOff handOff' offer next deadline ⟨p', hp, hsame, hi⟩ hv
    have ha : p'.attempt = .waiting deadline := congrArg Scene.attempt hi
    have hh : p'.handOff = handOff := congrArg Scene.handOff hi
    have hnow : p'.now = p.scene.now := congrArg Scene.now hi
    have hnext : p'.next? .review = some (p'.hearOffer row deadline handOff' offer) := by
      simp only [next?, ha, onOffer?, hsame, hs, hr, hh, hnow, hv]
    cases offer <;> exact .trans hi (hp.step hnext) hsame rfl

/-- The producer hears of its row, and goes on with what is left. -/
theorem Tries.hear {taken : Bool} {handOff : HandOff Unit Row}
    (htried : Tries branch capacity p handOff (.answered taken)) (hs : p.stage = .emitting e)
    (hw : Shows (.producer 0) { p.scene with handOff, attempt := .none } w) :
    ∃ p', Reaches next? (fresh branch capacity) p' ∧ Shows (.producer 0) p'.scene
      { w with producers := w.producers.insert 0 (bif taken then e.accepted else e.refused) } := by
  obtain ⟨p', hp, hsame, hi⟩ := htried
  have ha : p'.attempt = .answered taken := congrArg Scene.attempt hi
  rw [hs] at hsame
  obtain ⟨rest, hrest⟩ : ∃ rest, rest = bif taken then e.accepted else e.refused := ⟨_, rfl⟩
  have hnext : ∃ a, p'.next? a = some { p' with attempt := .none, stage := .emitting rest } := by
    cases taken with
    | true => exact ⟨.accept, by simp [next?, ha, hsame, hrest]⟩
    | false => exact ⟨.refuse, by simp [next?, ha, hsame, hrest]⟩
  obtain ⟨a, hnext⟩ := hnext
  have hscene : { p' with attempt := .none, stage := .emitting rest }.scene =
      { p'.scene with
        attempt := .none, producer := Function.update p'.scene.producer 0 (some rest) } := by
    simp [scene, emission?]
  rw [← hrest]
  refine ⟨_, hp.step hnext, ?_⟩
  rw [hscene, hi]
  exact hw.setProducer 0 rest

/-- The producer emits its rows until it has to wait. -/
theorem emit (hp : Reaches next? (fresh branch capacity) p)
    (hw : Shows (.producer 0) p.scene w) (fuel : Nat) :
    Found (.producer 0) (ShownIn branch capacity) ((emitRows 0 fuel).run w).2 := by
  induction fuel generalizing p w with
  | zero => exact ⟨_, ⟨p, hp, rfl⟩, hw⟩
  | succ fuel ih =>
    simp only [emitRows, run_get_bind, hw.producer, producer_scene]
    cases hs : p.stage with
    | idle | finished =>
      simp only [emission?, hs]
      exact ⟨_, ⟨p, hp, rfl⟩, hw⟩
    | emitting e =>
      simp only [emission?, hs]
      cases hr : e.next? with
      | none =>
        have ha := attempt_eq_none hp hs hr
        have hnext : p.next? .finish = some { p with
            stage := .finished, isAccepting := false, finishedCalls := p.finishedCalls + 1 } := by
          simp [next?, ha, hs, onOffer?, hr]
        refine ⟨_, ⟨_, hp.step hnext, ?_⟩, (hw.eraseProducer 0).finishInput⟩
        simp [scene, emission?]
      | some row =>
        obtain ⟨answer, w', hrun⟩ : ∃ answer w',
          (Simulation.put (.producer 0) 0 row producerTimeout).run w = (answer, w') := ⟨_, _, rfl⟩
        obtain ⟨i, hput, hi⟩ := hw.put row producerTimeout
        rw [hrun] at hput hi
        dsimp only
        rw [run_bind hrun]
        obtain ⟨taken, handOff, rfl, htried, rfl⟩ | ⟨rfl, handOff, attempt, htried, rfl⟩ :=
          hput.attempt (attempts hs hr) ⟨p, hp, rfl, rfl⟩
        · obtain ⟨p', hnext, hshows⟩ := htried.hear hs hi
          cases taken with
          | true => exact ih hnext hshows
          | false => exact ih hnext hshows
        · obtain ⟨p', hp', -, hi'⟩ := htried
          exact ⟨_, ⟨p', hp', hi'⟩, hi⟩

/-- Whoever uses the pipeline, the production stays in the scene. -/
theorem lasting (branch : Branch) (capacity limit : Nat) :
    Lasting (.producer 0) true limit (ShownIn branch capacity) where
  receive := by
    rintro i handOff row next ⟨p, hp, rfl⟩ hr
    have hr : p.handOff.receive = (handOff, some (row, next)) := hr
    have hnext : p.next? .receive = some { p with handOff, received := p.received ++ [row] } := by
      simp only [next?, hr]
    exact ⟨_, hp.step hnext, rfl⟩
  close := by
    rintro i ⟨p, hp, rfl⟩
    exact ⟨_, hp.step (a := .dropOutput) rfl, rfl⟩
  finish := by
    rintro i ⟨p, hp, rfl⟩
    exact ⟨_, hp.step (a := .finishInput) rfl, rfl⟩
  operate := by
    rintro i operation ⟨p, hp, rfl⟩
    rw [scene_operate]
    refine ⟨_, ?_, rfl⟩
    cases operation with
    | start => exact hp.step (a := .start) rfl
    | stop => exact hp.step (a := .stop) rfl
    | abort => exact hp.step (a := .abort) rfl
  forget := by
    rintro - i ⟨p, hp, rfl⟩
    rw [scene_operate]
    exact ⟨_, hp.step (a := .dropPipeline) rfl, rfl⟩
  pass := by
    rintro i time ⟨p, hp, rfl⟩ ht -
    have ht : p.now ≤ time := ht
    have hnext : p.next? (.pass time) = some { p with now := time } := by simp [next?, ht]
    exact ⟨_, hp.step hnext, rfl⟩
  session := by
    rintro i w r ⟨p, hp, rfl⟩ hw
    exact ⟨_, ⟨p, hp, rfl⟩, hw.sessionTurn (hw.session r)⟩
  produce := by
    rintro i w n ⟨p, hp, rfl⟩ hw
    by_cases hn : n = 0
    · rw [hn]
      exact emit hp hw roundBound
    · have hnone : w.producers.get? n = none := by simp [hw.producer, scene, hn]
      exact ⟨_, ⟨p, hp, rfl⟩, hw.emitRows hnone roundBound⟩

end Production

namespace Simulation

variable {s : Scenario} {branch : Branch} {capacity : Nat} {steps : List Step}

/-- Whatever the owner and the consumer of a pipeline do that runs its own producer, the pipeline,
its hand-off, what was received and what is still to emit are as they are somewhere in a run of the
production. -/
theorem Scenario.production (s : Scenario) (hp : s.pipes = [.bounded capacity branch])
    (hs : ∀ step ∈ steps, step.isUse true = true) :
    ∃ (R : Run Production.next? (.fresh branch capacity)) (n : Nat),
      Shows (.producer 0) (R.state n).scene ((run steps).run s.world).2 := by
  have hscene : (Production.fresh branch capacity).scene = .fresh branch capacity := by
    simp [Production.scene, Production.emission?, Production.fresh, Scene.fresh]
  have hfound : Found (.producer 0) (Production.ShownIn branch capacity) s.world :=
    ⟨_, ⟨_, .refl, hscene⟩, s.shows _ hp⟩
  have hlasting := Production.lasting branch capacity
    ((0 + (steps.map Step.millis).sum) * Span.nanosPerMilli)
  have hk := (Known.mk s.linked (Nat.le_refl 0) hfound).run hlasting hs (Nat.le_refl _)
  obtain ⟨i, ⟨p, hreaches, rfl⟩, hshows⟩ := hk.found
  obtain ⟨R, n, rfl⟩ := hreaches.run
  exact ⟨R, n, hshows⟩

end Simulation

end RowReplay
