import Mathlib
import RowReplay.Proofs.Pipeline.HandOff
import RowReplay.Proofs.Pipeline.Production
import RowReplay.Proofs.Replay.Feed
import RowReplay.Proofs.Simulation.Quiet

/-!
What the program of a simulation does with the only pipeline there is, as seen by the only task that
puts rows into it. What the task finds is a scene; every computation leads from scene to scene.
-/
namespace RowReplay.Simulation

/-- What a task finds that is alone in putting rows into the only pipeline. -/
structure Scene where
  pipeline : Pipeline
  handOff : HandOff Unit Row
  isAccepting : Bool
  received : RowSequence
  /-- The task's own attempt to put a row. -/
  attempt : Attempt
  now : Nat
  session : Nat → Option SessionTask
  producer : Nat → Option Emission

namespace Scene

/-- The pipe of a scene, whose hand-off only the task uses. -/
def pipe (i : Scene) (t : Task) (output : Output) (finishedCalls : Nat) (isDropped : Bool) : Pipe :=
  ⟨i.pipeline, .bounded (i.handOff.rename fun _ => t) i.isAccepting output, finishedCalls,
    i.received, isDropped⟩

/-- A session goes on. -/
def setSession (i : Scene) (r : Nat) (task : SessionTask) : Scene :=
  { i with session := Function.update i.session r (some task) }

/-- A session hears of its gate, if it is there. -/
def tell (i : Scene) (r : Nat) (change : Session → Session) : Scene :=
  match i.session r with
  | some task => i.setSession r { task with session := change task.session }
  | none => i

/-- What an effect of the pipeline's life does to those who use the pipeline, whose branch has rows
of its own. -/
def hear (rows : RowSequence) (i : Scene) : PipelineEffect → Scene
  | .emitNativeRows => { i with producer := Function.update i.producer 0 (some (.start rows)) }
  | .gateOpened (.numbered r) => i.tell r Session.openGate
  | .gateAbandoned (.numbered r) => i.tell r Session.abandonGate
  | _ => i

/-- What the end of a session does to the input. -/
def close (i : Scene) : SessionEffect → Scene
  | .finishInput => { i with isAccepting := false }
  | .resolve _ => i

/-- An operation on the pipeline's life. -/
def operate (i : Scene) (operation : Pipeline → Pipeline × List PipelineEffect) : Scene :=
  let (pipeline, effects) := operation i.pipeline
  effects.foldl (hear pipeline.branch.nativeRows) { i with pipeline }

/-- Where there is no session, all that is heard is that the producer starts. -/
theorem foldl_hear (rows : RowSequence) (effects : List PipelineEffect) {i : Scene}
    (hs : ∀ r, i.session r = none) :
    effects.foldl (hear rows) i =
      if effects.any (·.isEmission) then
        { i with producer := Function.update i.producer 0 (some (.start rows)) }
      else i := by
  induction effects generalizing i with
  | nil => rfl
  | cons effect effects ih =>
    have htell (r : Nat) (change : Session → Session) : i.tell r change = i := by
      simp only [tell, hs]
    cases effect with
    | emitNativeRows =>
      have hrest := ih (i := i.hear rows .emitNativeRows) hs
      simp only [List.foldl_cons, hrest]
      split <;> simp [hear, PipelineEffect.isEmission]
    | gateOpened id | gateAbandoned id =>
      cases id with
      | uuid => exact ih hs
      | numbered r =>
        rw [List.foldl_cons, hear, htell]
        exact ih hs
    | _ => exact ih hs

/-- A session that ends tells the input that no more rows come, if it had begun. -/
theorem foldl_close (i : Scene) (session : Session) (hadBegun : Bool) :
    (session.closing hadBegun).foldl close i =
      { i with isAccepting := i.isAccepting && !(session.isEnded && hadBegun) } := by
  unfold Session.closing Session.isEnded
  split
  · cases hadBegun <;> simp [close]
  · simp

end Scene

/-- A put that waits is an attempt that waits. It is due in the first millisecond that is not before
the attempt's deadline. -/
inductive IsAttempt : Option (Nat × WaitingPut) → Attempt → Prop
  | none : IsAttempt none .none
  | room {due deadline : Nat} (h : ∀ now, deadline ≤ now * Span.nanosPerMilli ↔ due ≤ now) :
    IsAttempt (some (0, .room due)) (.waiting deadline)

/-- The task finds the scene in the world, where nobody else puts rows or asks the cache for
some. -/
structure Shows (t : Task) (i : Scene) (w : World) : Prop where
  pipes : ∃ output finishedCalls isDropped, w.pipes = [i.pipe t output finishedCalls isDropped]
  attempt : IsAttempt (w.waitingPuts.get? t) i.attempt
  now : w.reading.elapsed = i.now
  session : ∀ r, w.sessions.get? r = i.session r
  producer : ∀ p, w.producers.get? p = i.producer p
  requests : w.requests = []
  puts : w.puts = []
  works : w.works = []

/-- The part of a world in which a scene is found. -/
def World.seen (w : World) :=
  (w.pipes, w.waitingPuts, w.agenda.now, w.sessions, w.producers, w.requests, w.puts, w.works)

/-- The answer to a put whose row has been offered. -/
def answerOf : Offer → PutAnswer
  | .accepted => .accepted
  | .refused => .refused
  | .waiting => .pending

/-- What a put answers, and what the task finds after it. -/
inductive Scene.Putting (i : Scene) (row : Row) (timeout : Span) : PutAnswer → Scene → Prop
  | stopped (ha : i.attempt = .none) (hr : i.pipeline.running = false) :
    Putting i row timeout .refused i
  | shutOut (ha : i.attempt = .none) (hr : i.pipeline.running = true)
    (hn : i.isAccepting = false) : Putting i row timeout .refused i
  | offered {handOff : HandOff Unit Row} {offer : Offer} (ha : i.attempt = .none)
    (hr : i.pipeline.running = true) (hn : i.isAccepting = true)
    (ho : i.handOff.offer () row = (handOff, offer)) (hd : offer ≠ .waiting) :
    Putting i row timeout (answerOf offer) { i with handOff }
  | waits {handOff : HandOff Unit Row} (ha : i.attempt = .none)
    (hr : i.pipeline.running = true) (hn : i.isAccepting = true)
    (ho : i.handOff.offer () row = (handOff, .waiting)) :
    Putting i row timeout .pending
      { i with handOff, attempt := .waiting (i.now + timeout.nanos) }
  /-- There is no room, and no time to wait for it. -/
  | hurried {handOff handOff' : HandOff Unit Row} {offer : Offer} {next : Option Unit}
    (ha : i.attempt = .none) (hr : i.pipeline.running = true) (hn : i.isAccepting = true)
    (ho : i.handOff.offer () row = (handOff, .waiting)) (ht : timeout.nanos = 0)
    (hv : handOff.review () row true = (handOff', offer, next)) (hd : offer ≠ .waiting) :
    Putting i row timeout (answerOf offer) { i with handOff := handOff' }
  | reviewed {deadline : Nat} {handOff : HandOff Unit Row} {offer : Offer} {next : Option Unit}
    (ha : i.attempt = .waiting deadline)
    (hv : i.handOff.review () row (deadline ≤ i.now) = (handOff, offer, next))
    (hd : offer ≠ .waiting) :
    Putting i row timeout (answerOf offer) { i with handOff, attempt := .none }
  | stays {deadline : Nat} (ha : i.attempt = .waiting deadline) :
    Putting i row timeout .pending i

/-- The attempt after its offer. -/
def attemptAfter (deadline : Nat) : Offer → Attempt
  | .accepted => .answered true
  | .refused => .answered false
  | .waiting => .waiting deadline

/-- A relation between the hand-off and the attempt that every step of an attempt keeps. -/
structure Scene.Attempts (i : Scene) (row : Row) (timeout : Span)
    (A : HandOff Unit Row → Attempt → Prop) : Prop where
  enter : ∀ {h}, A h .none → A h (if i.pipeline.running then .entered else .answered false)
  shutOut : i.isAccepting = false → ∀ {h}, A h .entered → A h (.answered false)
  offer : i.isAccepting = true → ∀ {h h' o}, A h .entered → h.offer () row = (h', o) →
    A h' (attemptAfter (i.now + timeout.nanos) o)
  review : ∀ {h h' o next deadline}, A h (.waiting deadline) →
    h.review () row (deadline ≤ i.now) = (h', o, next) → A h' (attemptAfter deadline o)

/-- What a put does are steps of an attempt. -/
theorem Scene.Putting.attempt {i i' : Scene} {row : Row} {timeout : Span} {answer : PutAnswer}
    {A : HandOff Unit Row → Attempt → Prop} (hp : i.Putting row timeout answer i')
    (h : i.Attempts row timeout A) (ha : A i.handOff i.attempt) :
    (∃ taken handOff, answer = (bif taken then .accepted else .refused) ∧
      A handOff (.answered taken) ∧ i' = { i with handOff, attempt := .none }) ∨
    answer = .pending ∧
      ∃ handOff attempt, A handOff attempt ∧ i' = { i with handOff, attempt } := by
  have hanswered {offer : Offer} {deadline : Nat} {handOff : HandOff Unit Row}
      (hd : offer ≠ .waiting) (ha : A handOff (attemptAfter deadline offer)) :
      ∃ taken, answerOf offer = (bif taken then .accepted else .refused) ∧
        A handOff (.answered taken) := by
    cases offer with
    | accepted => exact ⟨true, rfl, ha⟩
    | refused => exact ⟨false, rfl, ha⟩
    | waiting => exact (hd rfl).elim
  have henter (hnone : i.attempt = .none) :
      A i.handOff (if i.pipeline.running then .entered else .answered false) := by
    rw [hnone] at ha
    exact h.enter ha
  have hentered (hnone : i.attempt = .none) (hr : i.pipeline.running = true) :
      A i.handOff .entered := by
    have hfound := henter hnone
    rwa [if_pos hr] at hfound
  cases hp with
  | stopped hnone hr =>
    have hstopped := henter hnone
    rw [hr] at hstopped
    exact Or.inl ⟨false, _, rfl, hstopped, by rw [← hnone]⟩
  | shutOut hnone hr hn =>
    exact Or.inl ⟨false, _, rfl, h.shutOut hn (hentered hnone hr), by rw [← hnone]⟩
  | offered hnone hr hn ho hd =>
    obtain ⟨taken, hanswer, htaken⟩ := hanswered hd (h.offer hn (hentered hnone hr) ho)
    exact Or.inl ⟨taken, _, hanswer, htaken, by rw [← hnone]⟩
  | waits hnone hr hn ho =>
    exact Or.inr ⟨rfl, _, _, h.offer hn (hentered hnone hr) ho, rfl⟩
  | hurried hnone hr hn ho ht hv hd =>
    have hwaits := h.offer hn (hentered hnone hr) ho
    have hdue : decide (i.now + timeout.nanos ≤ i.now) = true := by simp [ht]
    obtain ⟨taken, hanswer, htaken⟩ := hanswered hd (h.review hwaits (hdue ▸ hv))
    exact Or.inl ⟨taken, _, hanswer, htaken, by rw [← hnone]⟩
  | reviewed hw hv hd =>
    rw [hw] at ha
    obtain ⟨taken, hanswer, htaken⟩ := hanswered hd (h.review ha hv)
    exact Or.inl ⟨taken, _, hanswer, htaken, rfl⟩
  | stays => exact Or.inr ⟨rfl, _, _, ha, rfl⟩

theorem laterBy_le_iff (now later : Nat) (timeout : Span) :
    now * Span.nanosPerMilli + timeout.nanos ≤ later * Span.nanosPerMilli ↔
      laterBy now timeout ≤ later := by
  simp only [laterBy, Span.nanosPerMilli]
  omega

variable {t : Task} {i : Scene} {w w' : World}

/-- The world is looked at. -/
-- With a proof that is no definition, what follows is not evaluated when this is used.
theorem run_get_bind {α : Type} (f : World → Sim α) (w : World) :
    (get >>= f).run w = (f w).run w := (rfl)

theorem run_now_bind {α : Type} (f : Nat → Sim α) (w : World) :
    (now >>= f).run w = (f w.agenda.now).run w := (rfl)

theorem run_bind {α β : Type} {c : Sim α} {f : α → Sim β} {a : α} (h : c.run w = (a, w')) :
    (c >>= f).run w = (f a).run w' := by
  rw [StateT.run_bind, h]
  rfl

/-- What each turn of a loop does to what is known of the world, the whole loop does. -/
theorem run_forIn {α σ : Type} {f : α → PUnit → Sim (ForInStep PUnit)} {K : σ → World → Prop}
    {g : σ → α → σ} {l : List α} {s : σ} (h : K s w)
    (hf : ∀ a s w, K s w → ∃ w', (f a ⟨⟩).run w = (.yield ⟨⟩, w') ∧ K (g s a) w') :
    K (l.foldl g s) ((forIn l PUnit.unit f).run w).2 := by
  induction l generalizing s w with
  | nil => exact h
  | cons a l ih =>
    obtain ⟨w', hrun, hnext⟩ := hf a s w h
    rw [List.forIn_cons, run_bind hrun]
    exact ih hnext

theorem run_forM {α : Type} {f : α → Sim Unit} {K : World → Prop} {l : List α} (h : K w)
    (hf : ∀ a w, K w → K ((f a).run w).2) : K ((l.forM f).run w).2 := by
  induction l generalizing w with
  | nil => exact h
  | cons a l ih => exact ih (hf a w h)

/-- The only user of the hand-off goes by the name of the task. -/
theorem injective_name (t : Task) : Function.Injective fun _ : Unit => t :=
  Function.injective_of_subsingleton _

namespace Shows

theorem congr (h : Shows t i w) (hw : w'.seen = w.seen) : Shows t i w' := by
  obtain ⟨hp, ha, hn, hs, hr, hq, hu, hk⟩ : w'.pipes = w.pipes ∧ w'.waitingPuts = w.waitingPuts ∧
      w'.agenda.now = w.agenda.now ∧ w'.sessions = w.sessions ∧ w'.producers = w.producers ∧
      w'.requests = w.requests ∧ w'.puts = w.puts ∧ w'.works = w.works := by
    simpa [World.seen] using hw
  constructor
  · rw [hp]
    exact h.pipes
  · rw [ha]
    exact h.attempt
  · rw [World.reading, hn]
    exact h.now
  · rw [hs]
    exact h.session
  · rw [hr]
    exact h.producer
  · rw [hq, h.requests]
  · rw [hu, h.puts]
  · rw [hk, h.works]

theorem setAgenda (h : Shows t i w) {agenda : Agenda} (hn : agenda.now = w.agenda.now) :
    Shows t i { w with agenda } := h.congr (by simp [World.seen, hn])

theorem setTimer (h : Shows t i w) (due : Nat) (party : Party) :
    Shows t i ((modifyAgenda (·.setTimer due party)).run w).2 := h.setAgenda rfl

theorem wakeTask (h : Shows t i w) (u : Task) : Shows t i ((Simulation.wakeTask u).run w).2 :=
  h.setAgenda (now_wake ..)

/-- A change of the pipe is a change of the scene. -/
theorem modifyPipe (h : Shows t i w) {f : Pipe → Pipe} {pipeline : Pipeline}
    {handOff : HandOff Unit Row} {isAccepting : Bool} {received : RowSequence}
    (hf : ∀ output finishedCalls isDropped, ∃ output' finishedCalls' isDropped',
      f (i.pipe t output finishedCalls isDropped) =
        { i with pipeline, handOff, isAccepting, received }.pipe t output' finishedCalls'
          isDropped') :
    Shows t { i with pipeline, handOff, isAccepting, received }
      ((Simulation.modifyPipe 0 f).run w).2 := by
  obtain ⟨output, finishedCalls, isDropped, hp⟩ := h.pipes
  obtain ⟨output', finishedCalls', isDropped', hf⟩ := hf output finishedCalls isDropped
  refine ⟨⟨output', finishedCalls', isDropped', ?_⟩, h.attempt, h.now, h.session, h.producer,
    h.requests, h.puts, h.works⟩
  exact (congrArg (List.modify · 0 f) hp).trans (congrArg (fun pipe => [pipe]) hf)

theorem wakeConsumer (h : Shows t i w) : Shows t i ((Simulation.wakeConsumer 0).run w).2 := by
  obtain ⟨output, finishedCalls, isDropped, hp⟩ := h.pipes
  simp only [Simulation.wakeConsumer, run_get_bind, hp, Scene.pipe, List.getElem?_cons_zero]
  rcases output with - | - | (- | -) | -
  case consumed.true =>
    exact (h.modifyPipe fun _ _ _ => ⟨_, _, _, rfl⟩).wakeTask (.consumer 0)
  all_goals exact h

theorem noticeStreamEnd (h : Shows t i w) :
    Shows t i ((Simulation.noticeStreamEnd 0).run w).2 := by
  simp only [Simulation.noticeStreamEnd, run_get_bind]
  split
  · exact h.wakeConsumer
  · exact h

theorem setHandOff (h : Shows t i w) (handOff : HandOff Unit Row) :
    Shows t { i with handOff } ((Simulation.setHandOff 0 (handOff.rename fun _ => t)).run w).2 :=
  h.modifyPipe fun _ _ _ => ⟨_, _, _, rfl⟩

theorem finishInput (h : Shows t i w) :
    Shows t { i with isAccepting := false } ((Simulation.finishInput 0).run w).2 :=
  (h.modifyPipe fun _ _ _ => ⟨_, _, _, rfl⟩).noticeStreamEnd

theorem isRunning (h : Shows t i w) :
    (Simulation.isRunning 0).run w = (i.pipeline.running, w) := by
  obtain ⟨output, finishedCalls, isDropped, hp⟩ := h.pipes
  simp only [Simulation.isRunning, run_get_bind, hp]
  rfl

theorem hasHandOff (h : Shows t i w) : (Simulation.hasHandOff 0).run w = (true, w) := by
  obtain ⟨output, finishedCalls, isDropped, hp⟩ := h.pipes
  simp only [Simulation.hasHandOff, run_get_bind, hp]
  rfl

/-! Puts. -/

theorem setWaitingPut (h : Shows t i w) {due deadline : Nat}
    (hd : ∀ now, deadline ≤ now * Span.nanosPerMilli ↔ due ≤ now) :
    Shows t { i with attempt := .waiting deadline }
      ((Simulation.setWaitingPut t 0 (.room due)).run w).2 := by
  refine ⟨h.pipes, ?_, h.now, h.session, h.producer, h.requests, h.puts, h.works⟩
  have hinsert : (w.waitingPuts.insert t (0, .room due)).get? t = some (0, .room due) := by
    simp [Table.get?_insert]
  exact hinsert ▸ IsAttempt.room hd

theorem clearWaitingPut (h : Shows t i w) :
    Shows t { i with attempt := .none } ((Simulation.clearWaitingPut t).run w).2 := by
  refine ⟨h.pipes, ?_, h.now, h.session, h.producer, h.requests, h.puts, h.works⟩
  have herase : (w.waitingPuts.erase t).get? t = none := by simp [Table.get?_erase]
  exact herase ▸ IsAttempt.none

theorem wakeNext (h : Shows t i w) (next : Option Task) :
    Shows t i ((next.forM Simulation.wakeTask).run w).2 := by
  cases next with
  | none => exact h
  | some u => exact h.wakeTask u

/-- The hand-off has answered, and the answer of the put is the offer's. -/
theorem answerOffer (h : Shows t i w) (handOff : HandOff Unit Row) (next : Option Task)
    (offer : Offer) :
    ((Simulation.answerOffer 0 (handOff.rename fun _ => t) next offer).run w).1 = answerOf offer ∧
      Shows t { i with handOff }
        ((Simulation.answerOffer 0 (handOff.rename fun _ => t) next offer).run w).2 := by
  have hset := h.setHandOff handOff
  cases offer with
  | accepted => exact ⟨rfl, hset.wakeConsumer⟩
  | refused => exact ⟨rfl, hset.wakeNext next⟩
  | waiting => exact ⟨rfl, hset⟩

/-- A new put. -/
theorem beginPut (h : Shows t i w) (ha : i.attempt = .none) (row : Row) (timeout : Span) :
    ∃ i', i.Putting row timeout ((Simulation.beginPut t 0 row timeout).run w).1 i' ∧
      Shows t i' ((Simulation.beginPut t 0 row timeout).run w).2 := by
  obtain ⟨output, finishedCalls, isDropped, hp⟩ := h.pipes
  simp only [Simulation.beginPut, run_get_bind, hp, Scene.pipe, List.getElem?_cons_zero]
  cases hr : i.pipeline.running with
  | false => exact ⟨i, .stopped ha hr, h⟩
  | true =>
    cases hn : i.isAccepting with
    | false => exact ⟨i, .shutOut ha hr hn, h⟩
    | true =>
      have hoffer := HandOff.offer_rename (injective_name t) i.handOff () row
      obtain ⟨handOff, offer, ho⟩ : ∃ handOff offer, i.handOff.offer () row = (handOff, offer) :=
        ⟨_, _, rfl⟩
      simp only [Bool.not_true, Bool.or_self, Bool.false_eq_true, if_false, hoffer, ho]
      have hanswered := h.answerOffer handOff none
      cases offer with
      | accepted => exact ⟨_, .offered ha hr hn ho (by simp), (hanswered .accepted).2⟩
      | refused => exact ⟨_, .offered ha hr hn ho (by simp), (hanswered .refused).2⟩
      | waiting =>
        have hnow : i.now = w.agenda.now * Span.nanosPerMilli := h.now.symm
        have hdue (later : Nat) : i.now + timeout.nanos ≤ later * Span.nanosPerMilli ↔
            laterBy w.agenda.now timeout ≤ later := by
          rw [hnow]
          exact laterBy_le_iff ..
        rw [run_now_bind, run_now_bind]
        split
        case isTrue hd =>
          have hreview := HandOff.review_rename (injective_name t) handOff () row true
          obtain ⟨handOff', offer, next, hv⟩ : ∃ handOff' offer next,
            handOff.review () row true = (handOff', offer, next) := ⟨_, _, _, rfl⟩
          simp only [hreview, hv]
          have ht : timeout.nanos = 0 := by
            have hlate := (hdue w.agenda.now).mpr hd
            omega
          obtain ⟨hanswer, hshows⟩ := h.answerOffer handOff' (next.map fun _ => t) offer
          exact ⟨_, hanswer ▸ .hurried ha hr hn ho ht hv (HandOff.ne_waiting_of_due hv), hshows⟩
        case isFalse hd =>
          have hwaits := (h.setWaitingPut hdue).setTimer (laterBy w.agenda.now timeout) (.task t)
          exact ⟨_, .waits ha hr hn ho, (hwaits.answerOffer handOff none .waiting).2⟩

/-- A put that waits. -/
theorem resumePut (h : Shows t i w) {due deadline : Nat} (ha : i.attempt = .waiting deadline)
    (hd : ∀ now, deadline ≤ now * Span.nanosPerMilli ↔ due ≤ now) (row : Row) (timeout : Span) :
    ∃ i', i.Putting row timeout ((Simulation.resumePut t 0 row (.room due)).run w).1 i' ∧
      Shows t i' ((Simulation.resumePut t 0 row (.room due)).run w).2 := by
  obtain ⟨output, finishedCalls, isDropped, hp⟩ := h.pipes
  have hdue : due ≤ w.agenda.now ↔ deadline ≤ i.now := by
    rw [← hd, ← h.now]
    rfl
  have hreview := HandOff.review_rename (injective_name t) i.handOff () row (deadline ≤ i.now)
  obtain ⟨handOff, offer, next, hv⟩ : ∃ handOff offer next,
    i.handOff.review () row (deadline ≤ i.now) = (handOff, offer, next) := ⟨_, _, _, rfl⟩
  simp only [Simulation.resumePut, run_get_bind, hp, Scene.pipe, List.getElem?_cons_zero,
    run_now_bind, hdue, hreview, hv]
  have hanswered := h.clearWaitingPut.answerOffer handOff (next.map fun _ => t)
  cases offer with
  | accepted => exact ⟨_, .reviewed ha hv (by simp), (hanswered .accepted).2⟩
  | refused => exact ⟨_, .reviewed ha hv (by simp), (hanswered .refused).2⟩
  | waiting => exact ⟨i, .stays ha, h⟩

theorem put (h : Shows t i w) (row : Row) (timeout : Span) :
    ∃ i', i.Putting row timeout ((Simulation.put t 0 row timeout).run w).1 i' ∧
      Shows t i' ((Simulation.put t 0 row timeout).run w).2 := by
  have hattempt := h.attempt
  generalize hw : w.waitingPuts.get? t = waiting at hattempt
  generalize ha : i.attempt = attempt at hattempt
  simp only [Simulation.put, run_get_bind, hw]
  cases hattempt with
  | none => exact h.beginPut ha row timeout
  | room hd => exact h.resumePut ha hd row timeout

/-! The pipeline's consumer. -/

/-- The consumer takes a row, if there is one. -/
theorem receiveRow (h : Shows t i w) :
    (((Simulation.receiveRow 0).run w).1 = none ∧
      Shows t i ((Simulation.receiveRow 0).run w).2) ∨
    ∃ handOff row next, i.handOff.receive = (handOff, some (row, next)) ∧
      ((Simulation.receiveRow 0).run w).1 = some row ∧
      Shows t { i with handOff, received := i.received ++ [row] }
        ((Simulation.receiveRow 0).run w).2 := by
  obtain ⟨output, finishedCalls, isDropped, hp⟩ := h.pipes
  have hreceive := HandOff.receive_rename (fun _ : Unit => t) i.handOff
  simp only [Simulation.receiveRow, run_get_bind, hp, Scene.pipe, List.getElem?_cons_zero, hreceive]
  obtain ⟨handOff, taken, hr⟩ : ∃ handOff taken, i.handOff.receive = (handOff, taken) :=
    ⟨_, _, rfl⟩
  simp only [hr]
  cases taken with
  | none => exact Or.inl ⟨rfl, h⟩
  | some taken =>
    obtain ⟨row, next⟩ := taken
    have hset := h.setHandOff handOff
    have htaken : Shows t { i with handOff, received := i.received ++ [row] } _ :=
      hset.modifyPipe (f := fun pipe => { pipe with received := pipe.received ++ [row] })
        fun _ _ _ => ⟨_, _, _, rfl⟩
    exact Or.inr ⟨handOff, row, next, rfl, rfl, htaken.wakeNext (next.map fun _ => t)⟩

theorem closeOutput (h : Shows t i w) :
    Shows t { i with handOff := i.handOff.close.1 } ((Simulation.closeOutput 0).run w).2 := by
  obtain ⟨output, finishedCalls, isDropped, hp⟩ := h.pipes
  simp only [Simulation.closeOutput, run_get_bind, hp, Scene.pipe, List.getElem?_cons_zero]
  have hclosed : Shows t { i with handOff := i.handOff.close.1 } _ :=
    h.modifyPipe (f := fun pipe =>
      { pipe with input := .bounded (i.handOff.close.1.rename fun _ => t) i.isAccepting .gone })
      fun _ _ _ => ⟨_, _, _, rfl⟩
  exact run_forM hclosed fun u _ h => h.wakeTask u

/-! The pipeline's life. -/

theorem setSession (h : Shows t i w) (r : Nat) (task : SessionTask) :
    Shows t (i.setSession r task) ((Simulation.setSession r task).run w).2 := by
  refine ⟨h.pipes, h.attempt, h.now, fun r' => ?_, h.producer, h.requests, h.puts, h.works⟩
  have hinsert := Table.get?_insert w.sessions r r' task
  rw [h.session] at hinsert
  exact hinsert.trans (Function.update_apply ..).symm

theorem setProducer (h : Shows t i w) (p : Nat) (emission : Emission) :
    Shows t { i with producer := Function.update i.producer p (some emission) }
      { w with producers := w.producers.insert p emission } := by
  refine ⟨h.pipes, h.attempt, h.now, h.session, fun p' => ?_, h.requests, h.puts, h.works⟩
  have hinsert := Table.get?_insert w.producers p p' emission
  rw [h.producer] at hinsert
  exact hinsert.trans (Function.update_apply ..).symm

theorem eraseProducer (h : Shows t i w) (p : Nat) :
    Shows t { i with producer := Function.update i.producer p none }
      { w with producers := w.producers.erase p } := by
  refine ⟨h.pipes, h.attempt, h.now, h.session, fun p' => ?_, h.requests, h.puts, h.works⟩
  have herase := Table.get?_erase w.producers p p'
  rw [h.producer] at herase
  exact herase.trans (Function.update_apply ..).symm

theorem tellGate (h : Shows t i w) (r : Nat) (change : Session → Session) :
    Shows t (i.tell r change) ((Simulation.tellGate (.numbered r) change).run w).2 := by
  simp only [Simulation.tellGate, run_get_bind, h.session, Scene.tell]
  cases i.session r with
  | none => exact h
  | some task =>
    have hset := h.setSession r { task with session := change task.session }
    dsimp only
    split
    · exact hset.wakeTask (.session r)
    · exact hset

/-- The effects happen one after the other. -/
theorem carryOut (h : Shows t i w) (effects : List PipelineEffect) :
    Shows t (effects.foldl (Scene.hear i.pipeline.branch.nativeRows) i)
      ((Simulation.carryOut 0 effects).run w).2 := by
  obtain ⟨output, finishedCalls, isDropped, hp⟩ := h.pipes
  simp only [Simulation.carryOut, run_get_bind, hp, Scene.pipe, List.getElem?_cons_zero]
  refine run_forIn (K := Shows t) h fun effect i w h => ?_
  cases effect with
  | log event =>
    simp only
    split
    · exact ⟨_, rfl, h.congr rfl⟩
    · exact ⟨w, rfl, h⟩
  | flag => exact ⟨w, rfl, h⟩
  | shutDown => exact ⟨w, rfl, h⟩
  | emitNativeRows => exact ⟨_, rfl, (h.setProducer 0 _).wakeTask (.producer 0)⟩
  | gateOpened id =>
    cases id with
    | uuid => exact ⟨w, rfl, h⟩
    | numbered r => exact ⟨_, rfl, h.tellGate r Session.openGate⟩
  | gateAbandoned id =>
    cases id with
    | uuid => exact ⟨w, rfl, h⟩
    | numbered r => exact ⟨_, rfl, h.tellGate r Session.abandonGate⟩
  | announced tag => exact ⟨_, rfl, h.congr rfl⟩

theorem operate (h : Shows t i w) (operation : Pipeline → Pipeline × List PipelineEffect) :
    Shows t (i.operate operation) ((Simulation.operate 0 operation).run w).2 := by
  obtain ⟨output, finishedCalls, isDropped, hp⟩ := h.pipes
  simp only [Simulation.operate, run_get_bind, hp, Scene.pipe, List.getElem?_cons_zero]
  have hset : Shows t { i with pipeline := (operation i.pipeline).1 } _ :=
    h.modifyPipe (f := fun pipe => { pipe with pipeline := (operation i.pipeline).1 })
      fun _ _ _ => ⟨_, _, _, rfl⟩
  exact hset.carryOut (operation i.pipeline).2

/-! The end of a session. -/

theorem reportResult (h : Shows t i w) (r : Nat) (result : Except ReplayError ReplayOutcome) :
    Shows t i ((Simulation.reportResult r result).run w).2 := by
  cases result <;> exact h.congr rfl

/-- A session goes on; at its end, if it has begun, it tells the input that no more rows come. -/
theorem moveSession (h : Shows t i w) (r : Nat) (task : SessionTask) (hp : task.pipe = 0)
    (session : Session) :
    Shows t
      { i.setSession r { task with session } with
        isAccepting := i.isAccepting && !(session.isEnded && task.session.hasBegun) }
      ((Simulation.moveSession r task session).run w).2 := by
  have hset := h.setSession r { task with session }
  have hclosing := (i.setSession r { task with session }).foldl_close session task.session.hasBegun
  refine hclosing ▸ run_forIn (K := Shows t) hset fun effect i w h => ?_
  rw [hp]
  cases effect with
  | finishInput => exact ⟨_, rfl, h.finishInput⟩
  | resolve result =>
    have htold := h.noticeStreamEnd
    dsimp only
    split
    · exact ⟨_, rfl, htold.reportResult r result⟩
    · exact ⟨_, rfl, htold⟩

end Shows

end RowReplay.Simulation
