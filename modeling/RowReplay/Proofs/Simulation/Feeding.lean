import RowReplay.Proofs.Replay.Readiness
import RowReplay.Proofs.Simulation.Usage

/-!
A session that replays its rows into the only pipeline of a simulation. Each of its turns, and all
that is done to the pipeline around them, is a few steps of a feed; so the simulation goes through
the states of a run of the feed.
-/
namespace RowReplay

open Simulation

/-! The world as a feed's session finds it. -/

theorem Course.finishedCalls_moveTo (c : Course) (s : Session) :
    (c.moveTo s).finishedCalls =
      c.finishedCalls + if s.isEnded && c.session.hasBegun then 1 else 0 := by
  rw [finishedCalls, moveTo, List.countP_append, finishedCalls, Session.closing, Session.isEnded]
  cases s.stage with
  | ended result => cases c.session.hasBegun <;> rfl
  | _ => rfl

namespace Feed

/-- What the session of a feed finds at a time. -/
def scene (f : Feed) (r : Nat) (observed : Bool) (now : Nat) : Scene :=
  Scene.setSession
    { pipeline := f.pipeline, handOff := f.handOff, isAccepting := f.isAccepting
      received := f.received, attempt := f.attempt, now, session := fun _ => none
      producer := fun _ => none }
    r ⟨f.course.session, 0, observed⟩

variable {f : Feed} {r : Nat} {observed : Bool} {now : Nat}

@[simp] theorem isAccepting_scene : (f.scene r observed now).isAccepting = f.isAccepting := rfl

@[simp] theorem session_scene :
    (f.scene r observed now).session r = some ⟨f.course.session, 0, observed⟩ :=
  Function.update_self ..

/-- A session that goes on, and may have told its input, finds this out. -/
theorem scene_follow (ha : f.Attending) {course : Course} {hasTold : Bool}
    (hc : course.finishedCalls = f.course.finishedCalls + if hasTold then 1 else 0) :
    (f.follow course).scene r observed now =
      { (f.scene r observed now).setSession r ⟨course.session, 0, observed⟩ with
        isAccepting := f.isAccepting && !hasTold } := by
  have hinput : (f.isAccepting && course.finishedCalls == 0) = (f.isAccepting && !hasTold) := by
    cases hn : f.isAccepting with
    | false => rfl
    | true => cases hasTold <;> simp [hc, ha hn]
  simp [scene, follow, Scene.setSession, hinput]

theorem setSession_scene (task : SessionTask) :
    (f.scene r observed now).setSession r task =
      { f.scene r observed now with
        session := Function.update (fun _ => none) r (some task) } := by
  simp [scene, Scene.setSession]

/-- The session is the only one. -/
theorem scene_tell (n : Nat) (change : Session → Session)
    (hid : f.course.session.id = .numbered r) :
    (f.scene r observed now).tell n change =
      { f with
        course.session :=
          if SessionId.numbered n = f.course.session.id then change f.course.session
          else f.course.session }.scene r observed now := by
  rw [Scene.tell, hid]
  by_cases hn : n = r
  · rw [hn, session_scene, if_pos rfl]
    exact setSession_scene _
  · have hnone : (f.scene r observed now).session n = none := Function.update_of_ne hn ..
    rw [hnone, if_neg (by simpa using hn)]

/-- What the session hears, it hears in the simulation. -/
theorem scene_hear (rows : RowSequence) {effect : PipelineEffect} (hn : effect ≠ .emitNativeRows)
    (hid : f.course.session.id = .numbered r) :
    (f.scene r observed now).hear rows effect =
      { f with course.session := f.course.session.hear effect }.scene r observed now := by
  cases effect with
  | emitNativeRows => exact (hn rfl).elim
  | gateOpened id =>
    cases id with
    | uuid value =>
      rw [Session.hear, if_neg (by simp [hid])]
      rfl
    | numbered n => exact scene_tell n Session.openGate hid
  | gateAbandoned id =>
    cases id with
    | uuid value =>
      rw [Session.hear, if_neg (by simp [hid])]
      rfl
    | numbered n => exact scene_tell n Session.abandonGate hid
  | _ => rfl

theorem scene_operate {operation : Pipeline → Pipeline × List PipelineEffect}
    (hn : .emitNativeRows ∉ (operation f.pipeline).2) (hid : f.course.session.id = .numbered r) :
    (f.scene r observed now).operate operation = (f.operate operation).scene r observed now := by
  have hall (rows : RowSequence) (effects : List PipelineEffect) (f : Feed)
      (hn : .emitNativeRows ∉ effects) (hid : f.course.session.id = .numbered r) :
      effects.foldl (Scene.hear rows) (f.scene r observed now) =
        { f with course.session := effects.foldl Session.hear f.course.session }.scene r observed
          now := by
    induction effects generalizing f with
    | nil => rfl
    | cons effect effects ih =>
      rw [List.foldl_cons, scene_hear rows (List.ne_of_not_mem_cons hn).symm hid]
      refine ih _ (List.not_mem_of_not_mem_cons hn) ?_
      obtain ⟨gate, hs, -⟩ := f.course.session.hear_eq effect
      simpa only [hs] using hid
  exact hall _ _ { f with pipeline := (operation f.pipeline).1 } hn hid

/-- A scene of the feed, but for the session, which has gone on since. -/
def IsBefore (i : Scene) (f : Feed) (r : Nat) (observed : Bool) (now : Nat) : Prop :=
  ∀ task, i.setSession r task = (f.scene r observed now).setSession r task

theorem IsBefore.scene {i : Scene} (hi : IsBefore i f r observed now) :
    f.scene r observed now = i.setSession r ⟨f.course.session, 0, observed⟩ :=
  ((hi _).trans (setSession_scene _)).symm

/-- The session goes on, and so does its feed. -/
theorem IsBefore.moveSession {t : Task} {w : World} {i : Scene} {course : Course}
    (hi : IsBefore i f r observed now) (hw : Shows t i w) (ha : f.Attending)
    (hc : course.finishedCalls = f.course.finishedCalls +
      if course.session.isEnded && f.course.session.hasBegun then 1 else 0) :
    Shows t ((f.follow course).scene r observed now)
      ((Simulation.moveSession r ⟨f.course.session, 0, observed⟩ course.session).run w).2 := by
  have hmoved := hw.moveSession r ⟨f.course.session, 0, observed⟩ rfl course.session
  have hinput : i.isAccepting = f.isAccepting :=
    congrArg Scene.isAccepting (hi ⟨course.session, 0, observed⟩)
  rw [hi, hinput] at hmoved
  rw [scene_follow ha hc]
  exact hmoved

/-! What is recorded of a feed. -/

/-- What is known of a feed and its time, and stays known whatever happens to it up to a time. -/
structure Chronicle (branch : Branch) (capacity : Nat) (session : Session) (mayDrop : Bool)
    (limit : Nat) (Q : Feed → Nat → Prop) : Prop where
  sound : ∀ {f now}, Q f now → f.Sound branch capacity session
  clock : ∀ {f now}, Q f now → f.course.clock ≤ now
  act : ∀ {f f' now} (a : Action), Q f now → f.next? a = some f' →
    a.time?.all (· = now) = true → Q f' now
  forget : mayDrop = true → ∀ {f now}, Q f now → Q (f.operate Pipeline.forgetListeners) now
  pass : ∀ {f now time}, Q f now → now ≤ time → time ≤ limit → Q f time

/-- A feed of which so much is known shows in a scene. -/
def ShownIn (Q : Feed → Nat → Prop) (r : Nat) (observed : Bool) (i : Scene) : Prop :=
  ∃ f now, Q f now ∧ f.scene r observed now = i

/-- A feed of which so much is known differs from another at most by how far its attempt to put a
row has come. -/
def Tries (Q : Feed → Nat → Prop) (f : Feed) (r : Nat) (observed : Bool) (now : Nat)
    (handOff : HandOff Unit Row) (attempt : Attempt) : Prop :=
  ∃ f', Q f' now ∧ f'.course.session = f.course.session ∧
    f'.scene r observed now = { f.scene r observed now with handOff, attempt }

/-- The attempt has come further. -/
theorem Tries.trans {Q : Feed → Nat → Prop} {f' f'' : Feed} {handOff handOff' : HandOff Unit Row}
    {attempt attempt' : Attempt}
    (hi : f'.scene r observed now = { f.scene r observed now with handOff, attempt })
    (hq : Q f'' now) (hs : f''.course.session = f.course.session)
    (hi' : f''.scene r observed now =
      { f'.scene r observed now with handOff := handOff', attempt := attempt' }) :
    Tries Q f r observed now handOff' attempt' := ⟨f'', hq, hs, by rw [hi', hi]⟩

namespace Chronicle

variable {branch : Branch} {capacity limit : Nat} {session : Session} {mayDrop : Bool}
  {Q : Feed → Nat → Prop} {f' : Feed} {w : World} {row : Row} {d : Delivery}

variable (h : Chronicle branch capacity session mayDrop limit Q)
include h

/-- The session's attempt to put a row goes as the feed's. -/
theorem attempts (r : Nat) (observed : Bool) (ho : f.course.session.onOffer? = some row) :
    (f.scene r observed now).Attempts row f.course.session.limits.putTimeout
      (Tries Q f r observed now) where
  enter := by
    rintro handOff ⟨f', hq, hs, hi⟩
    have ha : f'.attempt = .none := congrArg Scene.attempt hi
    have hp : f'.pipeline = (f.scene r observed now).pipeline := congrArg Scene.pipeline hi
    have hh : f'.handOff = handOff := congrArg Scene.handOff hi
    have hnext : f'.next? .enter = some { f' with
        attempt := if f'.pipeline.running then .entered else .answered false } := by
      simp only [next?, ha, hs, ho]
    rw [← hp, ← hh]
    exact .trans hi (h.act .enter hq hnext rfl) hs rfl
  shutOut := by
    rintro hn handOff ⟨f', hq, hs, hi⟩
    have ha : f'.attempt = .entered := congrArg Scene.attempt hi
    have hn : f'.isAccepting = false := (congrArg Scene.isAccepting hi).trans hn
    have hh : f'.handOff = handOff := congrArg Scene.handOff hi
    have hnext : f'.next? (.offer now) =
        some { f' with course.clock := now, attempt := .answered false } := by
      simp [next?, ha, hs, ho, h.clock hq, hn]
    have hq' := h.act (.offer now) hq hnext (decide_eq_true rfl)
    rw [← hh]
    exact .trans hi hq' hs rfl
  offer := by
    rintro hn handOff handOff' offer ⟨f', hq, hs, hi⟩ hoffer
    have ha : f'.attempt = .entered := congrArg Scene.attempt hi
    have hn : f'.isAccepting = true := (congrArg Scene.isAccepting hi).trans hn
    have hh : f'.handOff = handOff := congrArg Scene.handOff hi
    have hnext : f'.next? (.offer now) = some ({ f' with course.clock := now }.hearOffer row
        (now + f.course.session.limits.putTimeout.nanos) handOff' offer) := by
      simp only [next?, ha, hs, ho, h.clock hq, hn, if_true, hh, hoffer]
    have hq' := h.act (.offer now) hq hnext (decide_eq_true rfl)
    cases offer <;> exact .trans hi hq' hs rfl
  review := by
    rintro handOff handOff' offer next deadline ⟨f', hq, hs, hi⟩ hv
    have ha : f'.attempt = .waiting deadline := congrArg Scene.attempt hi
    have hh : f'.handOff = handOff := congrArg Scene.handOff hi
    have hv : handOff.review () row (deadline ≤ now) = (handOff', offer, next) := hv
    have hnext : f'.next? (.review now) = some ({ f' with course.clock := now }.hearOffer row
        deadline handOff' offer) := by
      simp only [next?, ha, hs, ho, h.clock hq, if_true, hh, hv]
    have hq' := h.act (.review now) hq hnext (decide_eq_true rfl)
    cases offer <;> exact .trans hi hq' hs rfl

/-! The session goes on. -/

/-- The session hears that its row was taken. -/
theorem accept {t : Task} {rest : RowSequence} {handOff : HandOff Unit Row}
    (htried : Tries Q f r observed now handOff (.answered true))
    (hs : f.course.session.stage = .offering d) (hd : d.remaining = row :: rest)
    (hw : Shows t { f.scene r observed now with handOff, attempt := .none } w) :
    ∃ f', Q f' now ∧ Shows t (f'.scene r observed now)
      ((moveSession r ⟨f.course.session, 0, observed⟩ (f.course.session.accepted d)).run w).2 := by
  obtain ⟨f', hq, hsame, hi⟩ := htried
  have ha : f'.attempt = .answered true := congrArg Scene.attempt hi
  have hrest : { f' with attempt := .none }.scene r observed now =
      { f.scene r observed now with handOff, attempt := .none } :=
    congrArg (fun i => { i with attempt := .none }) hi
  rw [← hrest] at hw
  rw [← hsame] at hs ⊢
  obtain ⟨course, hcourse⟩ : ∃ course, course = { f'.course with
      session := f'.course.session.accepted d, deeds := f'.course.deeds ++ [Deed.handed row] } :=
    ⟨_, rfl⟩
  have hnext : Q ({ f' with attempt := .none }.follow course) now :=
    h.act .accept hq (by simp [next?, ha, move, Course.next?, hs, hd, hcourse]) rfl
  have hc : course.finishedCalls = f'.course.finishedCalls := by
    simp [hcourse, Course.finishedCalls, List.countP_append, Deed.isFinish]
  have hses : course.session = f'.course.session.accepted d := by rw [hcourse]
  refine ⟨_, hnext, hses ▸ IsBefore.moveSession (fun _ => rfl) hw (h.sound hq).attending ?_⟩
  rw [hc, hses]
  rfl

/-- The session hears that its row was refused. -/
theorem refuse {t : Task} {handOff : HandOff Unit Row}
    (htried : Tries Q f r observed now handOff (.answered false))
    (hs : f.course.session.stage = .offering d)
    (hw : Shows t { f.scene r observed now with handOff, attempt := .none } w) :
    ∃ f', Q f' now ∧ Shows t (f'.scene r observed now)
      ((moveSession r ⟨f.course.session, 0, observed⟩
        (f.course.session.refused d f.pipeline.running).1).run w).2 := by
  obtain ⟨f', hq, hsame, hi⟩ := htried
  have ha : f'.attempt = .answered false := congrArg Scene.attempt hi
  have hp : f'.pipeline = f.pipeline := congrArg Scene.pipeline hi
  have hrest : { f' with attempt := .none }.scene r observed now =
      { f.scene r observed now with handOff, attempt := .none } :=
    congrArg (fun i => { i with attempt := .none }) hi
  rw [← hrest] at hw
  rw [← hsame] at hs ⊢
  have hnext : Q ({ f' with attempt := .none }.follow
      (f'.course.moveTo (f'.course.session.refused d f.pipeline.running).1)) now :=
    h.act .refuse hq (by simp [next?, ha, hp, move, Course.next?, hs]) rfl
  exact ⟨_, hnext, IsBefore.moveSession (fun _ => rfl) hw (h.sound hq).attending
    (f'.course.finishedCalls_moveTo _)⟩

/-- The session delivers its rows until it has to wait. -/
theorem deliver (hq : Q f now) (hw : Shows (.session r) (f.scene r observed now) w)
    (share fuel : Nat) :
    Found (.session r) (ShownIn Q r observed) ((Simulation.deliver r share fuel).run w).2 := by
  induction fuel generalizing f w share with
  | zero => exact ⟨_, ⟨f, now, hq, rfl⟩, hw⟩
  | succ fuel ih =>
    have hstays : Found (.session r) (ShownIn Q r observed) w := ⟨_, ⟨f, now, hq, rfl⟩, hw⟩
    simp only [Simulation.deliver, run_get_bind, hw.session, session_scene]
    cases hs : f.course.session.stage with
    | submitted | waiting | ended => exact hstays
    | delivering d =>
      have hnext : Q (f.follow (f.course.moveTo (f.course.session.next d f.pipeline.running).1))
        now := h.act .next hq (by simp [next?, move, Course.next?, hs]) rfl
      have hrunning : (isRunning 0).run w = (f.pipeline.running, w) := hw.isRunning
      dsimp only
      rw [run_bind hrunning]
      obtain ⟨s, answer, ho⟩ : ∃ s answer,
        f.course.session.next d f.pipeline.running = (s, answer) := ⟨_, _, rfl⟩
      have hmoved {w : World} (hw : Shows (.session r) (f.scene r observed now) w) :=
        IsBefore.moveSession (fun _ => rfl) hw (h.sound hq).attending
          (f.course.finishedCalls_moveTo s)
      rw [ho] at hnext ⊢
      cases answer with
      | ok row => exact ih hnext (hmoved hw) share
      | error event => exact ⟨_, ⟨_, now, hnext, rfl⟩, hmoved (hw.congr rfl)⟩
    | offering d =>
      dsimp only
      cases hd : d.remaining with
      | nil => exact hstays
      | cons row rest =>
        have ho : f.course.session.onOffer? = some row := by simp [Session.onOffer?, hs, hd]
        dsimp only
        rw [run_bind hw.hasHandOff]
        split
        · exact ⟨_, ⟨f, now, hq, rfl⟩, hw.wakeTask (.session r)⟩
        · obtain ⟨answer, w', hrun⟩ : ∃ answer w', (Simulation.put (.session r) 0 row
              f.course.session.limits.putTimeout).run w = (answer, w') := ⟨_, _, rfl⟩
          obtain ⟨i, hput, hi⟩ := hw.put row f.course.session.limits.putTimeout
          rw [hrun] at hput hi
          rw [run_bind hrun]
          obtain ⟨taken, handOff, rfl, htried, rfl⟩ | ⟨rfl, handOff, attempt, htried, rfl⟩ :=
            hput.attempt (h.attempts r observed ho) ⟨f, hq, rfl, rfl⟩
          · cases taken with
            | true =>
              obtain ⟨f', hnext, hshows⟩ := h.accept htried hs hd hi
              exact ih hnext hshows _
            | false =>
              have hrunning : (isRunning 0).run w' = (f.pipeline.running, w') := hi.isRunning
              have hlogged (lines : List String) : Shows (.session r)
                  { f.scene r observed now with handOff, attempt := .none }
                  ((logLines lines).run w').2 := hi.congr rfl
              obtain ⟨f', hnext, hshows⟩ := h.refuse htried hs (hlogged _)
              dsimp only [cond_false]
              rw [run_bind hrunning]
              exact ih hnext hshows _
          · obtain ⟨f', hq', -, hi'⟩ := htried
            exact ⟨_, ⟨f', now, hq', hi'⟩, hi⟩

/-- The session's first turn begins its wait, and one that waits goes on with it. -/
theorem begun (r : Nat) (observed : Bool) (hq : Q f now) (hs : f.course.session.stage = .submitted ∨
      ∃ deadline, f.course.session.stage = .waiting deadline) :
    ∃ f' deadline, Q f' now ∧ f'.course.session = f.course.session.begun now ∧
      f'.course.session.stage = .waiting deadline ∧
      IsBefore (f.scene r observed now) f' r observed now := by
  rcases hs with hs | ⟨deadline, hs⟩
  · have hbegun : f.course.session.begun now = f.course.session.begin now := by
      simp [Session.begun, hs]
    have hnext : Q (f.follow { f.course with session := f.course.session.begin now, clock := now })
        now := by
      refine h.act (.begin now) hq ?_ (decide_eq_true rfl)
      simp [next?, move, Course.next?, hs, h.clock hq]
    refine ⟨_, _, hnext, hbegun.symm, rfl, fun task => ?_⟩
    have hc : Course.finishedCalls
        { f.course with session := f.course.session.begin now, clock := now } =
        f.course.finishedCalls + if false then 1 else 0 := rfl
    rw [scene_follow (h.sound hq).attending hc]
    simp [Scene.setSession]
  · have hbegun : f.course.session.begun now = f.course.session := by simp [Session.begun, hs]
    exact ⟨f, deadline, hq, hbegun.symm, hs, fun _ => rfl⟩

theorem turn (hq : Q f now) (hw : Shows (.session r) (f.scene r observed now) w) :
    Found (.session r) (ShownIn Q r observed) ((sessionTurn r).run w).2 := by
  have hnow : w.agenda.now * Span.nanosPerMilli = now := hw.now
  have hstays : Found (.session r) (ShownIn Q r observed) w := ⟨_, ⟨f, now, hq, rfl⟩, hw⟩
  simp only [sessionTurn, run_get_bind, hw.session, session_scene, run_now_bind, hnow]
  by_cases hs : f.course.session.stage = .submitted ∨
      ∃ deadline, f.course.session.stage = .waiting deadline
  · obtain ⟨f', deadline, hq', hbegun, hs', hi⟩ := h.begun r observed hq hs
    rw [← hbegun, hs']
    dsimp only
    cases hl : f'.course.session.look now with
    | none =>
      obtain ⟨w', hrun⟩ : ∃ w', (Simulation.setSession r ⟨f'.course.session, 0, observed⟩).run w =
        ((), w') := ⟨_, rfl⟩
      have hwaits : Shows (.session r) (f'.scene r observed now) w' := by
        have hset := hw.setSession r ⟨f'.course.session, 0, observed⟩
        rwa [hrun, ← hi.scene] at hset
      dsimp only
      rw [run_bind hrun, run_get_bind]
      split
      · rw [run_now_bind]
        exact ⟨_, ⟨f', now, hq', rfl⟩, hwaits.setAgenda rfl⟩
      · exact ⟨_, ⟨f', now, hq', rfl⟩, hwaits⟩
    | some looked =>
      obtain ⟨s, event⟩ := looked
      have hnext : Q (f'.follow { f'.course.moveTo s with clock := now }) now := by
        refine h.act (.look now) hq' ?_ (decide_eq_true rfl)
        simp [next?, move, Course.next?, h.clock hq', hl]
      have htold : Shows (.session r) (f.scene r observed now) ((logLines [event.line]).run
          ((modifyAgenda (·.cancelTimer (.task (.session r)))).run w).2).2 :=
        (hw.setAgenda rfl).congr rfl
      have hmoved := hi.moveSession htold (h.sound hq').attending (f'.course.finishedCalls_moveTo s)
      exact h.deliver hnext hmoved (turnLength - 1) roundBound
  · have hbegun : f.course.session.begun now = f.course.session := by
      unfold Session.begun
      split
      case h_1 hst => exact (hs (Or.inl hst)).elim
      case h_2 => rfl
    rw [hbegun]
    cases hst : f.course.session.stage with
    | submitted => exact (hs (Or.inl hst)).elim
    | waiting deadline => exact (hs (Or.inr ⟨deadline, hst⟩)).elim
    | ended => exact hstays
    | delivering | offering => exact h.deliver hq hw turnLength roundBound

/-- Whoever uses the pipeline, the feed stays in the scene. -/
theorem lasting (r : Nat) (observed : Bool) (hid : session.id = .numbered r) :
    Lasting (.session r) mayDrop limit (ShownIn Q r observed) where
  receive := by
    rintro i handOff row next ⟨f, now, hq, rfl⟩ hr
    have hr : f.handOff.receive = (handOff, some (row, next)) := hr
    have hnext : f.next? .receive = some { f with handOff, received := f.received ++ [row] } := by
      simp only [next?, hr]
    exact ⟨_, now, h.act .receive hq hnext rfl, rfl⟩
  close := by
    rintro i ⟨f, now, hq, rfl⟩
    exact ⟨_, now, h.act .dropOutput hq rfl rfl, rfl⟩
  finish := by
    rintro i ⟨f, now, hq, rfl⟩
    exact ⟨_, now, h.act .finishInput hq rfl rfl, rfl⟩
  operate := by
    rintro i operation ⟨f, now, hq, rfl⟩
    have hsound := h.sound hq
    have hsilent := (hsound.isReplaced.producer_operate operation).2.2
    rw [scene_operate hsilent (hsound.same.id.trans hid)]
    refine ⟨_, now, ?_, rfl⟩
    cases operation with
    | start => exact h.act .start hq rfl rfl
    | stop => exact h.act .stop hq rfl rfl
    | abort => exact h.act .abort hq rfl rfl
  forget := by
    rintro hd i ⟨f, now, hq, rfl⟩
    rw [scene_operate (Pipeline.silent_abandonedGates _) ((h.sound hq).same.id.trans hid)]
    exact ⟨_, now, h.forget hd hq, rfl⟩
  pass := by
    rintro i time ⟨f, now, hq, rfl⟩ ht hl
    exact ⟨f, time, h.pass hq ht hl, rfl⟩
  session := by
    rintro i w n ⟨f, now, hq, rfl⟩ hw
    by_cases hn : n = r
    · rw [hn]
      exact h.turn hq hw
    · have hnone : w.sessions.get? n = none := by
        rw [hw.session]
        exact Function.update_of_ne hn ..
      exact ⟨_, ⟨f, now, hq, rfl⟩, hw.sessionTurn hnone⟩
  produce := by
    rintro i w p ⟨f, now, hq, rfl⟩ hw
    exact ⟨_, ⟨f, now, hq, rfl⟩, hw.emitRows (hw.producer p) roundBound⟩

/-- The session's task is thrown away before its first turn. -/
theorem discard (hq : Q f now) (hs : f.course.session.stage = .submitted)
    (hw : Shows (.session r) (f.scene r observed now) w) :
    Found (.session r) (ShownIn Q r observed) ((discardSession r).run w).2 := by
  have hgoing : f.course.session.isEnded = false := by simp [Session.isEnded, hs]
  have ha : f.attempt = .none := (h.sound hq).idle (by simp [hs])
  have hgiven : f.giveUp = f := by
    simp only [giveUp, ha]
    rw [← ha]
  have hnext : Q (f.follow (f.course.moveTo f.course.session.lose)) now :=
    h.act .lose hq (by simp [next?, hgiven, move, Course.next?, hgoing]) rfl
  simp only [discardSession, run_get_bind, hw.session, session_scene, hgoing]
  exact ⟨_, ⟨_, now, hnext, rfl⟩, IsBefore.moveSession (fun _ => rfl) hw (h.sound hq).attending
    (f.course.finishedCalls_moveTo _)⟩

end Chronicle

/-! Scenarios. -/

variable {branch : Branch} {capacity limit : Nat} {id : SessionId} {rows : RowSequence}
  {limits : ReplayLimits}

/-- The states that a feed can reach, at any later time. -/
theorem chronicle : Chronicle branch (max capacity 1) (.armed id rows limits) false limit
    fun f now => Reaches next? (armed branch capacity id rows limits) f ∧ f.course.clock ≤ now where
  sound := by
    rintro f now ⟨hreaches, -⟩
    obtain ⟨R, n, rfl⟩ := hreaches.run
    exact sound R n
  clock := fun h => h.2
  act := by
    rintro f f' now a ⟨hreaches, hclock⟩ hnext htime
    have hact : TimedFeed.next? ⟨f, now⟩ (.act a) = some ⟨f', now⟩ := by
      simp [TimedFeed.next?, htime, hnext]
    have hstep := TimedFeed.stepping hact
    exact ⟨hreaches.step hnext, hstep.clock_le hclock⟩
  forget := nofun
  pass := fun h ht _ => ⟨h.1, h.2.trans ht⟩

end Feed

namespace TimedFeed

variable {branch : Branch} {capacity : Nat} {id : SessionId} {rows : RowSequence}
  {limits : ReplayLimits} {n deadline : Nat}

/-- Nobody's wait is over before the time that it may take. -/
theorem readyTimeout_le (R : Run next? (armed branch capacity id rows limits))
    (hs : (R.state n).stage = .waiting deadline) : limits.readyTimeout.nanos ≤ deadline := by
  induction n with
  | zero =>
    rw [R.initial] at hs
    cases hs
  | succ n ih =>
    cases he : R.event n with
    | none =>
      rw [R.pad n he] at hs
      exact ih hs
    | some a =>
      have hstep := stepping (R.step n a he)
      by_cases hsub : (R.state n).stage = .submitted
      · rcases hstep.begins hsub (by simp [hs]) with rfl | hlost
        · rw [hstep.begin_stage.2.2, (sound R n).same.limits] at hs
          cases hs
          exact Nat.le_add_left ..
        · rw [hlost] at hs
          cases hs
      · exact ih (hstep.waits hsub hs)

/-- The states that a feed with a clock can reach while no wait for the gate is over. -/
theorem chronicle : Feed.Chronicle branch (max capacity 1) (.armed id rows limits) true
    limits.readyTimeout.nanos
    fun f now => Reaches next? (armed branch capacity id rows limits) ⟨f, now⟩ where
  sound := by
    intro f now hreaches
    obtain ⟨R, n, hR⟩ := hreaches.run
    have hsound := sound R n
    rwa [hR] at hsound
  clock := by
    intro f now hreaches
    obtain ⟨R, n, hR⟩ := hreaches.run
    have hclock := clock_le R n
    rwa [hR] at hclock
  act := by
    intro f f' now a hreaches hnext htime
    exact hreaches.step (a := .act a) (by simp [next?, htime, hnext])
  forget := fun _ _ _ hreaches => hreaches.step (a := .dropPipeline) rfl
  pass := by
    intro f now time hreaches ht hl
    refine hreaches.step (a := .pass time) ?_
    have htimer : (TimedFeed.mk f now).timer?.all (time ≤ ·) = true := by
      unfold timer?
      split
      case h_1 deadline hs _ =>
        obtain ⟨R, n, hR⟩ := hreaches.run
        rw [← hR] at hs
        simpa using hl.trans (readyTimeout_le R hs)
      case h_2 => rfl
    simp [next?, ht, htimer]

end TimedFeed

/-! Whole scenarios. -/

namespace Simulation

variable {s : Scenario} {branch : Branch} {capacity limit : Nat} {mayDrop : Bool}
  {Q : Feed → Nat → Prop} {rows : RowSequence} {steps : List Step}

theorem limits_tellGate (id : SessionId) (change : Session → Session) (w : World) :
    ((tellGate id change).run w).2.limits = w.limits := by
  cases id with
  | uuid => rfl
  | numbered r =>
    simp only [tellGate, run_get_bind]
    cases w.sessions.get? r with
    | none => rfl
    | some task =>
      dsimp only
      split <;> rfl

theorem limits_carryOut (p : Nat) (effects : List PipelineEffect) (w : World) :
    ((carryOut p effects).run w).2.limits = w.limits := by
  simp only [carryOut, run_get_bind]
  split
  · rfl
  refine run_forIn (K := fun (_ : Unit) w' => w'.limits = w.limits) (g := fun _ _ => ())
    (s := ()) rfl fun effect _ w' hl => ?_
  cases effect with
  | log | emitNativeRows =>
    dsimp only
    split <;> split <;> exact ⟨_, rfl, hl⟩
  | flag | shutDown => exact ⟨w', rfl, hl⟩
  | gateOpened id | gateAbandoned id => exact ⟨_, rfl, (limits_tellGate id _ w').trans hl⟩
  | announced => exact ⟨_, rfl, hl⟩

/-- No operation changes the limits of replays. -/
theorem limits_operate (p : Nat) (operation : Pipeline → Pipeline × List PipelineEffect)
    (w : World) : ((operate p operation).run w).2.limits = w.limits := by
  simp only [operate, run_get_bind]
  split
  · rfl
  · exact limits_carryOut ..

/-- The pipeline is armed with a session, which is handed to the executor. -/
theorem found_armReplay {r : Nat} {w : World}
    (h : Feed.Chronicle branch (max capacity 1) (.armed (.numbered r) rows w.limits) mayDrop
      limit Q)
    (hstart : Q (.armed branch capacity (.numbered r) rows w.limits) 0)
    (hw : Shows (.session r) (.fresh branch capacity) w) :
    Found (.session r) (Feed.ShownIn Q r true) ((armReplay r 0 rows).run w).2 := by
  have harmed := hw.operate (·.arm (.numbered r))
  have hlimits := limits_operate 0 (·.arm (.numbered r)) w
  have hscene : (Scene.fresh branch capacity).operate (·.arm (.numbered r)) =
      { Scene.fresh branch capacity with
        pipeline := ((Pipeline.fresh branch).arm (.numbered r)).1 } := by
    have hany := Production.any_isEmission (Pipeline.silent_arm (.fresh branch) (.numbered r))
    exact (Scene.foldl_hear _ _ fun _ => rfl).trans (if_neg (ne_true_of_eq_false hany))
  rw [hscene] at harmed
  obtain ⟨w₁, hrun⟩ : ∃ w₁, (operate 0 (·.arm (.numbered r))).run w = ((), w₁) := ⟨_, rfl⟩
  rw [hrun] at harmed hlimits
  rw [armReplay, run_bind hrun, run_get_bind, hlimits]
  have hset := harmed.setSession r ⟨.armed (.numbered r) rows w.limits, 0, true⟩
  obtain ⟨w₂, hrun⟩ : ∃ w₂, (setSession r ⟨.armed (.numbered r) rows w.limits, 0, true⟩).run w₁ =
    ((), w₂) := ⟨_, rfl⟩
  rw [hrun] at hset
  rw [run_bind hrun, submit, run_get_bind]
  have hsubmitted : Shows (.session r)
      ((Feed.armed branch capacity (.numbered r) rows w.limits).scene r true 0) w₂ := hset
  cases w₂.executor with
  | prompt => exact ⟨_, ⟨_, 0, hstart, rfl⟩, hsubmitted.wakeTask _⟩
  | dropping => exact h.discard hstart rfl hsubmitted
  | manual => exact ⟨_, ⟨_, 0, hstart, rfl⟩, hsubmitted.congr rfl⟩

/-- What is known of a feed holds after a scenario in which its pipeline is armed and used. -/
theorem Scenario.known (s : Scenario) (hp : s.pipes = [.bounded capacity branch])
    (h : Feed.Chronicle branch (max capacity 1) (.armed (.numbered 0) rows s.limits) mayDrop
      limit Q)
    (hstart : Q (.armed branch capacity (.numbered 0) rows s.limits) 0)
    (hs : ∀ step ∈ steps, step.isUse mayDrop = true)
    (hl : (steps.map Step.millis).sum * Span.nanosPerMilli ≤ limit) :
    Found (.session 0) (Feed.ShownIn Q 0 true)
      ((run (.pipe 0 (.replay rows) :: steps)).run s.world).2 := by
  have hlasting := h.lasting 0 true rfl
  obtain ⟨hlinked, hnow⟩ := spec_of_keeps s.policy
    (fun _ ha => perform_pipe_keeps ha 0 (.replay rows)) 0 s.world ⟨s.linked, Nat.le_refl 0⟩
  have hfound : Found (.session 0) (Feed.ShownIn Q 0 true)
      ((perform (.pipe 0 (.replay rows))).run s.world).2 := by
    have hpipe : s.world.pipes[0]? = some (.bounded capacity branch) := congrArg (·[0]?) hp
    have hfresh : Shows (.session 0) (.fresh branch capacity) (takeReplayNumber.run s.world).2 :=
      (s.shows (.session 0) hp).congr rfl
    rw [perform, run_get_bind, hpipe]
    exact found_armReplay h hstart hfresh
  have hk := (Known.mk hlinked hnow hfound).settle hlasting
  rw [run, List.mapM_cons]
  exact (hk.run hlasting hs (by simpa using hl)).found

/-- Whatever the owner and the consumer of a pipeline do that is armed with a replay, the pipeline,
its hand-off, what was received and the session are as they are somewhere in a run of the feed. -/
theorem Scenario.feed (s : Scenario) (hp : s.pipes = [.bounded capacity branch])
    (hs : ∀ step ∈ steps, step.isUse false = true) :
    ∃ (R : Run Feed.next? (.armed branch capacity (.numbered 0) rows s.limits)) (n now : Nat),
      Shows (.session 0) ((R.state n).scene 0 true now)
        ((run (.pipe 0 (.replay rows) :: steps)).run s.world).2 := by
  obtain ⟨i, ⟨f, now, ⟨hreaches, -⟩, rfl⟩, hshows⟩ :=
    s.known hp Feed.chronicle ⟨.refl, Nat.le_refl 0⟩ hs (Nat.le_refl _)
  obtain ⟨R, n, rfl⟩ := hreaches.run
  exact ⟨R, n, now, hshows⟩

/-- The same with the clock, and an owner who may drop the pipeline, as long as it takes no longer
than the session may wait for its gate. -/
theorem Scenario.timedFeed (s : Scenario) (hp : s.pipes = [.bounded capacity branch])
    (hs : ∀ step ∈ steps, step.isUse true = true)
    (hl : (steps.map Step.millis).sum * Span.nanosPerMilli ≤ s.limits.readyTimeout.nanos) :
    ∃ (R : Run TimedFeed.next? (.armed branch capacity (.numbered 0) rows s.limits)) (n : Nat),
      Shows (.session 0) ((R.state n).feed.scene 0 true (R.state n).now)
        ((run (.pipe 0 (.replay rows) :: steps)).run s.world).2 := by
  obtain ⟨i, ⟨f, now, hreaches, rfl⟩, hshows⟩ := s.known hp TimedFeed.chronicle .refl hs hl
  obtain ⟨R, n, hR⟩ := hreaches.run
  exact ⟨R, n, by rwa [hR]⟩

/-- What the consumer has received are the first rows of the replay. -/
theorem Scenario.received_prefix (s : Scenario) (hp : s.pipes = [.bounded capacity branch])
    (hs : ∀ step ∈ steps, step.isUse false = true) :
    ∀ pipe ∈ ((run (.pipe 0 (.replay rows) :: steps)).run s.world).2.pipes,
      pipe.received <+: rows := by
  obtain ⟨R, n, now, hshows⟩ := s.feed hp hs
  obtain ⟨output, finishedCalls, isDropped, hpipes⟩ := hshows.pipes
  intro pipe hpipe
  rw [hpipes, List.mem_singleton] at hpipe
  rw [hpipe]
  exact (Feed.sound R n).conserved.received.trans (Feed.sent_in_order R n)

end Simulation

end RowReplay
