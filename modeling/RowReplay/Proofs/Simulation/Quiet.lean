import Mathlib
import RowReplay.Proofs.Replay.Course
import RowReplay.Simulation.Scenario

/-!
Computations of a simulation that have nothing to do with loads: pipelines, puts and sessions leave
the cache, the calls of the loader and the clock as they are, and every session on its course.
-/
namespace RowReplay.Simulation

open Std.Do

set_option mvcgen.warning false

/-- The call of the loader that a load has begun. -/
def runningOf (w : World) (g : Nat) : Option RunningCall := w.works[g]?.bind (·.running)

/-- Every session is on its course. -/
def OnCourse (w : World) : Prop :=
  ∀ r task, w.sessions.get? r = some task → task.session.OnCourse w.reading.elapsed

theorem OnCourse.congr {w w' : World} (h : OnCourse w) (hs : w'.sessions = w.sessions)
    (hn : w.agenda.now ≤ w'.agenda.now) : OnCourse w' := by
  intro r task hr
  rw [hs] at hr
  exact (h r task hr).mono (Nat.mul_le_mul_right _ hn)

/-- All that concerns loads is the same in two worlds; timers may go, and later ones be set. Sessions
stay on their courses. -/
structure Quiet (w w' : World) : Prop where
  cache : w'.cache = w.cache
  works : w'.works.length = w.works.length
  running : ∀ g, runningOf w' g = runningOf w g
  now : w'.agenda.now = w.agenda.now
  timers : ∀ t ∈ w'.agenda.timers, t ∈ w.agenda.timers ∨ w.agenda.now ≤ t.due
  sessions : OnCourse w → OnCourse w'

theorem Quiet.sameWorks {w w' : World} (hc : w'.cache = w.cache) (hw : w'.works = w.works)
    (ha : w'.agenda = w.agenda) (hs : w'.sessions = w.sessions) : Quiet w w' where
  cache := hc
  works := by rw [hw]
  running g := by rw [runningOf, hw, runningOf]
  now := by rw [ha]
  timers t ht := Or.inl (by rwa [ha] at ht)
  sessions h := h.congr hs (by rw [ha])

/-- What is said of a world at a time and holds on as long as nothing happens to its loads. -/
structure Assertion where
  time : Nat
  holds : World → Prop
  now : ∀ {w}, holds w → w.agenda.now = time
  onCourse : ∀ {w}, holds w → OnCourse w
  quiet : ∀ {w w'}, holds w → Quiet w w' → holds w'

variable {a : Assertion} {w : World}

/-- The computation keeps what is asserted. -/
abbrev Keeps {α : Type} (a : Assertion) (c : Sim α) : Prop :=
  ⦃fun w => ⌜a.holds w⌝⦄ c ⦃⇓ _ w => ⌜a.holds w⌝⦄

theorem keeps_forM {α : Type} {f : α → Sim Unit} (h : ∀ x, Keeps a (f x)) (l : List α) :
    Keeps a (l.forM f) := by
  induction l with
  | nil => mvcgen [List.forM]
  | cons x l ih =>
    simp only [List.forM]
    mvcgen [h, ih]

theorem keeps_optionForM {α : Type} {f : α → Sim Unit} (h : ∀ x, Keeps a (f x)) (o : Option α) :
    Keeps a (o.forM f) := by
  cases o with
  | none => mvcgen [Option.forM]
  | some x => exact h x

theorem keeps_forIn {α : Type} {f : α → PUnit → Sim (ForInStep PUnit)}
    (h : ∀ x u, Keeps a (f x u)) (l : List α) : Keeps a (forIn l PUnit.unit f) := by
  mvcgen [h] invariants
  · ⇓⟨_, _⟩ => fun w => ⌜a.holds w⌝
  case vc2 => exact id
  case vc4 r =>
    intro w hw
    cases r <;> exact hw

/-! The agenda. -/

theorem now_wake (a : Agenda) (t : Task) : (a.wake t).now = a.now := by
  unfold Agenda.wake
  split
  · rfl
  · split <;> rfl

theorem timers_wake (a : Agenda) (t : Task) : (a.wake t).timers = a.timers := by
  unfold Agenda.wake
  split
  · rfl
  · split <;> rfl

theorem Quiet.ofAgenda {agenda : Agenda} (hn : agenda.now = w.agenda.now)
    (ht : ∀ t ∈ agenda.timers, t ∈ w.agenda.timers ∨ w.agenda.now ≤ t.due) :
    Quiet w { w with agenda } := ⟨rfl, rfl, fun _ => rfl, hn, ht, fun h => h.congr rfl hn.ge⟩

@[spec] theorem wakeTask_keeps (t : Task) : Keeps a (wakeTask t) := by
  mvcgen [wakeTask, modifyAgenda]
  case vc1 h _ =>
    refine a.quiet h (.ofAgenda (now_wake ..) ?_)
    rw [timers_wake]
    exact fun t => Or.inl

@[spec] theorem modifyPipe_keeps (p : Nat) (f : Pipe → Pipe) : Keeps a (modifyPipe p f) := by
  mvcgen [modifyPipe]
  case vc1 h _ => exact a.quiet h (.sameWorks rfl rfl rfl rfl)

@[spec] theorem logLines_keeps (lines : List String) : Keeps a (logLines lines) := by
  mvcgen [logLines]
  case vc1 h _ => exact a.quiet h (.sameWorks rfl rfl rfl rfl)

@[spec] theorem report_keeps (name : String) (r : Report) : Keeps a (report name r) := by
  mvcgen [report]
  case vc1 h _ => exact a.quiet h (.sameWorks rfl rfl rfl rfl)

@[spec] theorem modifyRequest_keeps (n : Nat) (f : Request → Request) :
    Keeps a (modifyRequest n f) := by
  mvcgen [modifyRequest]
  case vc1 h _ => exact a.quiet h (.sameWorks rfl rfl rfl rfl)

/-- The instant of what is asserted. -/
def Assertion.instant (a : Assertion) : Nat := a.time * Span.nanosPerMilli

theorem Assertion.session (h : a.holds w) {r : Nat} {task : SessionTask}
    (hr : w.sessions.get? r = some task) : task.session.OnCourse a.instant := by
  rw [instant, ← a.now h]
  exact a.onCourse h r task hr

theorem Quiet.ofSession {r : Nat} {task : SessionTask}
    (h : task.session.OnCourse w.reading.elapsed) :
    Quiet w { w with sessions := w.sessions.insert r task } := by
  refine ⟨rfl, rfl, fun _ => rfl, rfl, fun t => Or.inl, ?_⟩
  intro hw r' task' hr
  rw [Table.get?_insert] at hr
  split at hr
  case isTrue =>
    cases hr
    exact h
  case isFalse => exact hw r' task' hr

@[spec] theorem setSession_keeps (r : Nat) (t : SessionTask) :
    ⦃fun w => ⌜a.holds w ∧ t.session.OnCourse a.instant⌝⦄ setSession r t
    ⦃⇓ _ w => ⌜a.holds w⌝⦄ := by
  mvcgen [setSession]
  case vc1 h _ =>
    refine a.quiet h.1 (.ofSession ?_)
    rw [World.reading, a.now h.1]
    exact h.2

/-! Puts. -/

@[spec] theorem wakeConsumer_keeps (p : Nat) : Keeps a (wakeConsumer p) := by
  mvcgen [wakeConsumer]

@[spec] theorem noticeStreamEnd_keeps (p : Nat) : Keeps a (noticeStreamEnd p) := by
  mvcgen [noticeStreamEnd]

@[spec] theorem closeOutput_keeps (p : Nat) : Keeps a (closeOutput p) := by
  mvcgen [closeOutput, keeps_forM]

@[spec] theorem finishInput_keeps (p : Nat) : Keeps a (finishInput p) := by
  mvcgen [finishInput]

@[spec] theorem setHandOff_keeps (p : Nat) (handOff : HandOff Task Row) :
    Keeps a (setHandOff p handOff) := by
  mvcgen [setHandOff]

@[spec] theorem receiveRow_keeps (p : Nat) : Keeps a (receiveRow p) := by
  mvcgen [receiveRow, keeps_optionForM]

@[spec] theorem setWaitingPut_keeps (t : Task) (p : Nat) (put : WaitingPut) :
    Keeps a (setWaitingPut t p put) := by
  mvcgen [setWaitingPut]
  case vc1 h _ => exact a.quiet h (.sameWorks rfl rfl rfl rfl)

@[spec] theorem cancelTimer_keeps (party : Party) :
    Keeps a (modifyAgenda (·.cancelTimer party)) := by
  mvcgen [modifyAgenda]
  case vc1 h _ =>
    refine a.quiet h (.ofAgenda rfl ?_)
    exact fun t ht => Or.inl (List.mem_of_mem_filter ht)

@[spec] theorem setTimer_keeps (due : Nat) (party : Party) :
    ⦃fun w => ⌜a.holds w ∧ a.time ≤ due⌝⦄ modifyAgenda (·.setTimer due party)
    ⦃⇓ _ w => ⌜a.holds w⌝⦄ := by
  mvcgen [modifyAgenda]
  case vc1 h _ =>
    refine a.quiet h.1 (.ofAgenda rfl ?_)
    intro t ht
    rw [a.now h.1]
    rcases List.mem_append.mp ht with ht | ht
    · exact Or.inl ht
    · cases List.mem_singleton.mp ht
      exact Or.inr h.2

@[spec] theorem clearWaitingPut_keeps (t : Task) : Keeps a (clearWaitingPut t) := by
  mvcgen [clearWaitingPut]
  case vc1 h _ => exact a.quiet h (.sameWorks rfl rfl rfl rfl)

@[spec] theorem answerOffer_keeps (p : Nat) (handOff : HandOff Task Row) (next : Option Task)
    (offer : Offer) : Keeps a (answerOffer p handOff next offer) := by
  cases offer <;> mvcgen [answerOffer, keeps_optionForM]

@[spec] theorem takeScripted_keeps (p : Nat) (row : Row) : Keeps a (takeScripted p row) := by
  mvcgen [takeScripted]

@[spec] theorem setRunning_keeps (p : Nat) (running : Bool) : Keeps a (setRunning p running) := by
  mvcgen [setRunning]

@[spec] theorem isRunning_keeps (p : Nat) : Keeps a (isRunning p) := by
  mvcgen [isRunning]

theorem le_laterBy (now : Nat) (span : Span) : now ≤ laterBy now span := Nat.le_add_right ..

@[spec] theorem now_keeps :
    ⦃fun w => ⌜a.holds w⌝⦄ now ⦃⇓ t w => ⌜a.holds w ∧ t = a.time⌝⦄ := by
  mvcgen [now]
  case vc1 h => exact ⟨h, a.now h⟩

@[spec] theorem answerLater_keeps (t : Task) (p : Nat) (row : Row) (due : Nat) (isTaken : Bool) :
    Keeps a (answerLater t p row due isTaken) := by
  mvcgen [answerLater]
  all_goals grind

@[spec] theorem beginPut_keeps (t : Task) (p : Nat) (row : Row) (timeout : Span) :
    Keeps a (beginPut t p row timeout) := by
  mvcgen [beginPut]
  all_goals grind

@[spec] theorem resumePut_keeps (t : Task) (p : Nat) (row : Row) (put : WaitingPut) :
    Keeps a (resumePut t p row put) := by
  mvcgen [resumePut]
  all_goals grind

@[spec] theorem put_keeps (t : Task) (p : Nat) (row : Row) (timeout : Span) :
    Keeps a (put t p row timeout) := by
  mvcgen [put]

/-! Sessions and pipelines. -/

theorem tellGate_keeps (id : SessionId) {change : Session → Session}
    (hchange : ∀ {s now}, Session.OnCourse s now → (change s).OnCourse now) :
    Keeps a (tellGate id change) := by
  mvcgen [tellGate]
  case vc2 h _ hr => exact ⟨h, hchange (a.session h hr)⟩

@[spec] theorem carryOut_keeps (p : Nat) (effects : List PipelineEffect) :
    Keeps a (carryOut p effects) := by
  have hopen := fun id => tellGate_keeps (a := a) id Session.OnCourse.openGate
  have habandon := fun id => tellGate_keeps (a := a) id Session.OnCourse.abandonGate
  mvcgen [carryOut, -Spec.forIn_list, keeps_forIn, hopen, habandon]
  next h _ => exact a.quiet h (.sameWorks rfl rfl rfl rfl)
  next h _ => exact a.quiet h (.sameWorks rfl rfl rfl rfl)

@[spec] theorem operate_keeps (p : Nat)
    (operation : Pipeline → Pipeline × List PipelineEffect) : Keeps a (operate p operation) := by
  mvcgen [operate]

@[spec] theorem releasePipe_keeps (p : Nat) : Keeps a (releasePipe p) := by
  mvcgen [releasePipe]

@[spec] theorem reportResult_keeps (r : Nat) (result : Except ReplayError ReplayOutcome) :
    Keeps a (reportResult r result) := by
  cases result with
  | ok => mvcgen [reportResult]
  | error => mvcgen [reportResult]

@[spec] theorem moveSession_keeps (r : Nat) (task : SessionTask) (session : Session) :
    ⦃fun w => ⌜a.holds w ∧ session.OnCourse a.instant⌝⦄ moveSession r task session
    ⦃⇓ _ w => ⌜a.holds w⌝⦄ := by
  mvcgen [moveSession, -Spec.forIn_list, keeps_forIn]

@[spec] theorem discardSession_keeps (r : Nat) : Keeps a (discardSession r) := by
  mvcgen [discardSession]
  case vc2 h _ hr hend => exact ⟨h, (a.session h hr).lose (by simpa using hend)⟩

@[spec] theorem discard_keeps (t : Task) : Keeps a (discard t) := by
  cases t with
  | session r => exact discardSession_keeps r
  | _ => mvcgen [discard]

@[spec] theorem submit_keeps (t : Task) : Keeps a (submit t) := by
  mvcgen [submit]
  case vc3 h _ _ => exact a.quiet h (.sameWorks rfl rfl rfl rfl)

@[spec] theorem armReplay_keeps (r p : Nat) (rows : RowSequence) :
    Keeps a (armReplay r p rows) := by
  mvcgen [armReplay]
  case vc4 h => exact ⟨h, Session.onCourse_armed ..⟩

@[spec] theorem hasHandOff_keeps (p : Nat) : Keeps a (hasHandOff p) := by
  mvcgen [hasHandOff]

@[spec] theorem deliver_keeps (r share fuel : Nat) : Keeps a (deliver r share fuel) := by
  induction fuel generalizing share with
  | zero => mvcgen [deliver]
  | succ fuel ih =>
    mvcgen [deliver, ih]
    all_goals
      rename _ = some (_ : SessionTask) => hr
      have hcourse := a.session (by assumption) hr
      refine ⟨by assumption, ?_⟩
    case vc5 hs running _ _ hnext _ _ => simpa [hnext] using hcourse.next hs running
    case vc9 hs running _ _ hnext _ _ _ _ _ => simpa [hnext] using hcourse.next hs running
    all_goals rename _ = SessionStage.offering _ => hs
    case vc17 =>
      rename _ = _ :: _ => hrow
      exact hcourse.accepted hs hrow
    case vc24 => exact hcourse.refused hs _
    case vc27 => exact hcourse.lose (by simp [Session.isEnded, hs])

@[spec] theorem sessionTurn_keeps (r : Nat) : Keeps a (sessionTurn r) := by
  mvcgen [sessionTurn]
  all_goals
    rename _ = some (_ : SessionTask) => hr
    have hcourse := (a.session (by assumption) hr).begun
    rename a.holds _ ∧ _ = a.time => h
    obtain ⟨h, rfl⟩ := h
  case vc5 => exact ⟨h, hcourse⟩
  case vc8 => exact ⟨h, le_laterBy ..⟩
  case vc15 =>
    rename Session.look _ _ = some _ => hlook
    exact ⟨by assumption, hcourse.look hlook⟩
  all_goals exact h

@[spec] theorem emitRows_keeps (p fuel : Nat) : Keeps a (emitRows p fuel) := by
  induction fuel with
  | zero => mvcgen [emitRows]
  | succ fuel ih =>
    mvcgen [emitRows, ih]
    case vc2 h _ _ _ _ => exact a.quiet h (.sameWorks rfl rfl rfl rfl)
    case vc5 h _ => exact a.quiet h (.sameWorks rfl rfl rfl rfl)
    case vc7 h _ => exact a.quiet h (.sameWorks rfl rfl rfl rfl)

@[spec] theorem putTurn_keeps (n : Nat) : Keeps a (putTurn n) := by
  mvcgen [putTurn, keeps_optionForM]
  case vc7 h _ => exact a.quiet h (.sameWorks rfl rfl rfl rfl)
  case vc11 h _ => exact a.quiet h (.sameWorks rfl rfl rfl rfl)
  case vc16 h _ => exact a.quiet h (.sameWorks rfl rfl rfl rfl)

@[spec] theorem consume_keeps (p fuel : Nat) : Keeps a (consume p fuel) := by
  induction fuel with
  | zero => mvcgen [consume]
  | succ fuel ih => mvcgen [consume, ih]

@[spec] theorem answerRequest_keeps (n : Nat) (request : Request)
    (result : Except (CacheError Key) Loaded) : Keeps a (answerRequest n request result) := by
  mvcgen [answerRequest]

@[spec] theorem addRequest_keeps (name : String) (key : Key) (purpose : RequestPurpose) :
    Keeps a (addRequest name key purpose) := by
  mvcgen [addRequest]
  case vc1 h => exact a.quiet h (.sameWorks rfl rfl rfl rfl)

@[spec] theorem addGets_keeps (key : Key) (n : Nat) : Keeps a (addGets key n) := by
  induction n with
  | zero => mvcgen [addGets]
  | succ n ih =>
    mvcgen [addGets, ih]
    case vc2 h => exact a.quiet h (.sameWorks rfl rfl rfl rfl)

theorem Quiet.ofWork (w : World) (g : Nat) {f : LoadWork → LoadWork}
    (h : ∀ work, (f work).running = work.running) :
    Quiet w { w with works := w.works.modify g f } := by
  refine ⟨rfl, List.length_modify .., ?_, rfl, fun t => Or.inl, id⟩
  intro j
  simp only [runningOf, List.getElem?_modify]
  cases w.works[j]? with
  | none => rfl
  | some work => by_cases hg : g = j <;> simp [hg, h]

theorem modifyWork_keeps (g : Nat) {f : LoadWork → LoadWork}
    (h : ∀ work, (f work).running = work.running) : Keeps a (modifyWork g f) := by
  mvcgen [modifyWork]
  case vc1 hw _ => exact a.quiet hw (.ofWork _ g h)

@[spec] theorem cancelRequest_keeps (name : String) : Keeps a (cancelRequest name) := by
  mvcgen [cancelRequest, modifyWork_keeps]
  case vc4 => exact fun _ => trivial

@[spec] theorem cancelReplay_keeps (r : Nat) : Keeps a (cancelReplay r) := by
  mvcgen [cancelReplay]
  case vc1 h _ hr => exact ⟨h, a.session h hr⟩

@[spec] theorem release_keeps (n : Option Nat) : Keeps a (release n) := by
  mvcgen [release, keeps_forM]
  case vc2 h _ => exact a.quiet h (.sameWorks rfl rfl rfl rfl)

@[spec] theorem discardOldest_keeps : Keeps a discardOldest := by
  mvcgen [discardOldest]
  case vc2 h _ _ _ => exact a.quiet h (.sameWorks rfl rfl rfl rfl)

@[spec] theorem takeReplayNumber_keeps : Keeps a takeReplayNumber := by
  mvcgen [takeReplayNumber]
  case vc1 h => exact a.quiet h (.sameWorks rfl rfl rfl rfl)

@[spec] theorem setOutput_keeps (p : Nat) (output : Output) : Keeps a (setOutput p output) := by
  mvcgen [setOutput]

/-! Those who wait for a load. -/

@[spec] theorem notifyLoad_keeps (fuel g : Nat) : Keeps a (notifyLoad fuel g) := by
  induction fuel generalizing g with
  | zero => mvcgen [notifyLoad]
  | succ fuel ih =>
    mvcgen [notifyLoad, ih, modifyWork_keeps, -Spec.forIn_list, keeps_forIn]
    case vc3 => exact fun _ => trivial

@[spec] theorem wakeParty_keeps (party : Party) : Keeps a (wakeParty party) := by
  cases party with
  | task t => mvcgen [wakeParty]
  | load g => mvcgen [wakeParty]

@[spec] theorem armWaiter_keeps (g : Nat) (place : Option Nat) (party : Party) :
    Keeps a (armWaiter g place party) := by
  mvcgen [armWaiter, modifyWork_keeps]
  case vc2 => exact fun _ => trivial

end RowReplay.Simulation
