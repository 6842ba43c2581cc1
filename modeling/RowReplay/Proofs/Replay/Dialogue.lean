import RowReplay.Proofs.Replay.Closing

/-!
A delivery and its input, question by question. The input may answer anything at all, so a dialogue
is settled by the list of its answers; what the delivery offers, and when it gives up, is read off
what has been said so far.
-/
namespace RowReplay

/-- A call of the delivery to its input. -/
inductive Exchange
  /-- Whether the input runs. -/
  | asked (running : Bool)
  /-- A row on offer, which is taken or handed back. -/
  | offered (row : Row) (taken : Bool)

def Exchange.isOffer : Exchange → Bool
  | .asked _ => false
  | .offered .. => true

/-! What has been said is kept with the last exchange first. -/

/-- The rows taken, the last one last. -/
def takenRows : List Exchange → RowSequence
  | [] => []
  | .asked _ :: before => takenRows before
  | .offered row taken :: before => if taken then takenRows before ++ [row] else takenRows before

/-- How many offers in a row were refused, up to the last one. -/
def refusals : List Exchange → Nat
  | [] => 0
  | .asked _ :: before => refusals before
  | .offered _ taken :: before => if taken then 0 else refusals before + 1

/-- How many offers there were while just so many rows had been taken. -/
def offersAfter (taken : Nat) : List Exchange → Nat
  | [] => 0
  | exchange :: before =>
    offersAfter taken before +
      if exchange.isOffer ∧ (takenRows before).length = taken then 1 else 0

def offers (said : List Exchange) : Nat := said.countP Exchange.isOffer

/-- A session and what has been said between its delivery and the input. -/
structure Dialogue where
  course : Course
  said : List Exchange

namespace Dialogue

/-- The gate has opened, and the delivery begins. -/
def opened (id : SessionId) (rows : RowSequence) (limits : ReplayLimits) : Dialogue :=
  ⟨⟨⟨id, rows, limits, .opened, .delivering (.start rows)⟩, 0, []⟩, []⟩

/-- The session acts on these exchanges. -/
def act (d : Dialogue) (a : Course.Action) (exchanges : List Exchange) : Dialogue :=
  ⟨(d.course.next? a).getD d.course, exchanges ++ d.said⟩

/-- One turn of the delivery. A question gets the answer whose number it has among all questions. -/
def turn (answers : Nat → Bool) (d : Dialogue) : Dialogue :=
  match d.course.session.stage with
  | .delivering v =>
    match v.remaining with
    | [] => d.act (.next true) []
    | _ :: _ =>
      let running := answers d.said.length
      d.act (.next running) [.asked running]
  | .offering v =>
    match v.remaining with
    | [] => d
    | row :: _ =>
      if answers d.said.length then d.act .accept [.offered row true]
      else
        let running := answers (d.said.length + 1)
        d.act (.refuse running) [.asked running, .offered row false]
  | _ => d

/-- The dialogue after some turns. -/
def talk (answers : Nat → Bool) (d : Dialogue) : Nat → Dialogue
  | 0 => d
  | n + 1 => (d.talk answers n).turn answers

/-- What a turn may be, whatever the input answers. -/
inductive Turning (d : Dialogue) : Dialogue → Prop
  | completes {v : Delivery} (hs : d.course.session.stage = .delivering v)
    (hr : v.remaining = []) :
    Turning d ⟨d.course.atStage (.ended (.ok (d.course.outcome v))), d.said⟩
  | halts {v : Delivery} (hs : d.course.session.stage = .delivering v) :
    Turning d ⟨d.course.atStage (.ended (.ok (d.course.outcome v))), .asked false :: d.said⟩
  | offers {v : Delivery} {row : Row} (hs : d.course.session.stage = .delivering v)
    (hr : v.remaining.head? = some row) :
    Turning d ⟨d.course.atStage (.offering v), .asked true :: d.said⟩
  | hands {v : Delivery} {row : Row} (hs : d.course.session.stage = .offering v)
    (hr : v.remaining.head? = some row) {deeds : List Deed} :
    Turning d ⟨{ d.course with session := d.course.session.accepted v, deeds },
      .offered row true :: d.said⟩
  | overflows {v : Delivery} {row : Row} {running : Bool}
    (hs : d.course.session.stage = .offering v) (hr : v.remaining.head? = some row)
    (ha : v.attempts + 1 = attemptBound) :
    Turning d ⟨d.course.atStage (.ended (.error .taskLost)),
      .asked running :: .offered row false :: d.said⟩
  | stops {v : Delivery} {row : Row} (hs : d.course.session.stage = .offering v)
    (hr : v.remaining.head? = some row) :
    Turning d ⟨d.course.atStage (.ended (.ok (d.course.outcome v))),
      .asked false :: .offered row false :: d.said⟩
  | exhausts {v : Delivery} {row : Row} {limit : Nat} (hs : d.course.session.stage = .offering v)
    (hr : v.remaining.head? = some row)
    (hl : d.course.session.limits.maxPutAttempts = some limit) (hm : limit ≤ v.attempts + 1) :
    Turning d ⟨d.course.atStage (.ended (.ok (d.course.outcome v))),
      .asked true :: .offered row false :: d.said⟩
  | again {v : Delivery} {row : Row} (hs : d.course.session.stage = .offering v)
    (hr : v.remaining.head? = some row)
    (hl : ∀ limit, d.course.session.limits.maxPutAttempts = some limit → v.attempts + 1 < limit) :
    Turning d ⟨d.course.atStage (.offering { v with attempts := v.attempts + 1 }),
      .asked true :: .offered row false :: d.said⟩
  | rests (hd : ∀ v, d.course.session.stage ≠ .delivering v)
    (ho : ∀ v row, d.course.session.stage = .offering v → v.remaining.head? ≠ some row) :
    Turning d d

variable {d : Dialogue} {v : Delivery} {row : Row} {c : Course} {running : Bool}

theorem turning_next (hs : d.course.session.stage = .delivering v)
    (hr : v.remaining.head? = some row)
    (hm : d.course.Moving (.next running) c) : d.Turning ⟨c, .asked running :: d.said⟩ := by
  cases hm with
  | offer hs' =>
    obtain rfl := SessionStage.delivering.inj (hs.symm.trans hs')
    exact .offers hs hr
  | halt hs' hn =>
    obtain rfl := SessionStage.delivering.inj (hs.symm.trans hs')
    obtain rfl : running = false := hn.resolve_right fun hn => by simp [hn] at hr
    exact .halts hs

theorem turning_refuse (hs : d.course.session.stage = .offering v)
    (hr : v.remaining.head? = some row) (hm : d.course.Moving (.refuse running) c) :
    d.Turning ⟨c, .asked running :: .offered row false :: d.said⟩ := by
  cases hm with
  | overflow hs' ha =>
    obtain rfl := SessionStage.offering.inj (hs.symm.trans hs')
    exact .overflows hs hr ha
  | stopped hs' =>
    obtain rfl := SessionStage.offering.inj (hs.symm.trans hs')
    exact .stops hs hr
  | exhausted hs' _ hl hm =>
    obtain rfl := SessionStage.offering.inj (hs.symm.trans hs')
    exact .exhausts hs hr hl hm
  | again hs' _ hl =>
    obtain rfl := SessionStage.offering.inj (hs.symm.trans hs')
    exact .again hs hr hl

theorem turning (answers : Nat → Bool) (d : Dialogue) : d.Turning (d.turn answers) := by
  unfold turn
  split
  case h_1 v hs =>
    have hnext : ∀ running, ∃ c, d.course.next? (.next running) = some c := by
      simp [Course.next?, hs]
    split
    case h_1 hr =>
      have hn : d.course.next? (.next true) =
          some (d.course.atStage (.ended (.ok (d.course.outcome v)))) := by
        simp [Course.next?, hs, Session.next, Delivery.next?, hr]
        rfl
      simp only [act, hn, Option.getD_some]
      exact .completes hs hr
    case h_2 row rest hr =>
      obtain ⟨c, hc⟩ := hnext (answers d.said.length)
      simp only [act, hc, Option.getD_some]
      exact turning_next hs (congrArg List.head? hr) (Course.moving hc)
  case h_2 v hs =>
    split
    case h_1 hr =>
      refine .rests (by simp [hs]) fun v' row hs' => ?_
      obtain rfl := SessionStage.offering.inj (hs.symm.trans hs')
      simp [hr]
    case h_2 row rest hr =>
      have hhead := congrArg List.head? hr
      split
      case isTrue =>
        have hn : d.course.next? .accept = some { d.course with
            session := d.course.session.accepted v, deeds := d.course.deeds ++ [.handed row] } := by
          simp [Course.next?, hs, hr]
        simp only [act, hn, Option.getD_some]
        exact .hands hs hhead
      case isFalse =>
        have hn : ∃ c, d.course.next? (.refuse (answers (d.said.length + 1))) = some c := by
          simp [Course.next?, hs]
        obtain ⟨c, hc⟩ := hn
        simp only [act, hc, Option.getD_some]
        exact turning_refuse hs hhead (Course.moving hc)
  case h_3 hd ho => exact .rests hd fun v _ hs => (ho v hs).elim

/-! What has been said agrees with where the delivery stands. -/

structure Agrees (d : Dialogue) (v : Delivery) : Prop where
  le : v.delivered ≤ d.course.session.rows.length
  remaining : v.remaining = d.course.session.rows.drop v.delivered
  taken : takenRows d.said = d.course.session.rows.take v.delivered
  refused : refusals d.said = v.attempts
  /-- There is an attempt left. -/
  allowed : ∀ limit, d.course.session.limits.maxPutAttempts = some limit → v.attempts < limit

/-- Why a delivery has ended. -/
structure Reported (d : Dialogue) (result : Except ReplayError ReplayOutcome) : Prop where
  allowed : ∀ limit, d.course.session.limits.maxPutAttempts = some limit → refusals d.said ≤ limit
  reason : refusals d.said = attemptBound ∨
    ∃ outcome, result = .ok outcome ∧
      takenRows d.said = d.course.session.rows.take outcome.delivered ∧
      outcome.delivered ≤ d.course.session.rows.length ∧
      (outcome.delivered < d.course.session.rows.length →
        d.said.head? = some (.asked false) ∨
          d.course.session.limits.maxPutAttempts = some (refusals d.said))

def Settled (d : Dialogue) : Prop :=
  match d.course.session.stage with
  | .delivering v => d.Agrees v ∧ v.attempts = 0
  | .offering v => d.Agrees v ∧ d.said.head? = some (.asked true) ∧ v.remaining ≠ []
  | .ended result => d.Reported result
  | _ => False

variable {said : List Exchange} {d' : Dialogue}

theorem Settled.delivering (h : d.Settled) (hs : d.course.session.stage = .delivering v) :
    d.Agrees v ∧ v.attempts = 0 := by simpa only [Settled, hs] using h

theorem Settled.offering (h : d.Settled) (hs : d.course.session.stage = .offering v) :
    d.Agrees v ∧ d.said.head? = some (.asked true) ∧ v.remaining ≠ [] := by
  simpa only [Settled, hs] using h

theorem Settled.reported {result : Except ReplayError ReplayOutcome} (h : d.Settled)
    (hs : d.course.session.stage = .ended result) : d.Reported result := by
  simpa only [Settled, hs] using h

theorem Agrees.next_row (h : d.Agrees v) (hr : v.remaining.head? = some row) :
    d.course.session.rows[v.delivered]? = some row := by rw [← hr, h.remaining, List.head?_drop]

/-- The report is right if no more than one attempt was made since. -/
theorem Agrees.reported (h : d.Agrees v) (ht : takenRows said = takenRows d.said)
    (hr : refusals said ≤ v.attempts + 1)
    (hwhy : v.delivered < d.course.session.rows.length → said.head? = some (.asked false) ∨
      d.course.session.limits.maxPutAttempts = some (refusals said)) :
    Settled ⟨d.course.atStage (.ended (.ok (d.course.outcome v))), said⟩ where
  allowed limit hl := Nat.le_trans hr (h.allowed limit hl)
  reason := Or.inr ⟨_, rfl, ht.trans h.taken, h.le, hwhy⟩

theorem Settled.turn (h : d.Settled) (ht : d.Turning d') : d'.Settled := by
  cases ht with
  | @completes v hs hr =>
    obtain ⟨ha, -⟩ := h.delivering hs
    have hlen : d.course.session.rows.length ≤ v.delivered := by
      rw [ha.remaining, List.drop_eq_nil_iff] at hr
      exact hr
    exact ha.reported rfl (by simp [ha.refused]) fun hlt => absurd hlt (Nat.not_lt.mpr hlen)
  | halts hs =>
    obtain ⟨ha, -⟩ := h.delivering hs
    exact ha.reported rfl (by simp [refusals, ha.refused]) fun _ => Or.inl rfl
  | offers hs hr =>
    obtain ⟨ha, -⟩ := h.delivering hs
    refine ⟨⟨ha.le, ha.remaining, ha.taken, ha.refused, ha.allowed⟩, rfl, ?_⟩
    exact fun hnil => by simp [hnil] at hr
  | hands hs hr =>
    obtain ⟨ha, -⟩ := h.offering hs
    have hrow := ha.next_row hr
    refine ⟨⟨(List.getElem?_eq_some_iff.mp hrow).1, ?_, ?_, rfl, fun limit hl => ?_⟩, rfl⟩
    · simp [Delivery.accepted, Session.accepted, ha.remaining]
    · simp [takenRows, Delivery.accepted, Session.accepted, ha.taken, List.take_add_one, hrow]
    · exact Nat.lt_of_le_of_lt (Nat.zero_le _) (ha.allowed limit hl)
  | overflows hs _ hbound =>
    obtain ⟨ha, -⟩ := h.offering hs
    have hrefused : refusals d.said + 1 = attemptBound := by rw [ha.refused, hbound]
    refine ⟨fun limit hl => ?_, Or.inl hrefused⟩
    have := ha.allowed limit hl
    rw [← ha.refused] at this
    exact this
  | stops hs =>
    obtain ⟨ha, -⟩ := h.offering hs
    exact ha.reported rfl (by simp [refusals, ha.refused]) fun _ => Or.inl rfl
  | exhausts hs _ hl hm =>
    obtain ⟨ha, -⟩ := h.offering hs
    refine ha.reported rfl (by simp [refusals, ha.refused]) fun _ => Or.inr ?_
    rw [hl, Nat.le_antisymm hm (ha.allowed _ hl), ← ha.refused]
    rfl
  | again hs _ hl =>
    obtain ⟨ha, -, hne⟩ := h.offering hs
    exact ⟨⟨ha.le, ha.remaining, ha.taken, congrArg (· + 1) ha.refused, hl⟩, rfl, hne⟩
  | rests => exact h

/-- The session stays the same but for where it stands. -/
theorem Turning.session (ht : d.Turning d') :
    d'.course.session.rows = d.course.session.rows ∧
      d'.course.session.limits = d.course.session.limits := by
  cases ht <;> exact ⟨rfl, rfl⟩

theorem Agrees.length_takenRows (h : d.Agrees v) : (takenRows d.said).length = v.delivered := by
  rw [h.taken, List.length_take, Nat.min_eq_left h.le]

/-- What is said in a turn: nothing, a question, or an offer and perhaps a question. The offer comes
after the answer that the input runs, is the first row not yet taken, and is an attempt that was
left. -/
theorem Settled.speaks (h : d.Settled) (ht : d.Turning d') :
    d'.said = d.said ∨ (∃ running, d'.said = .asked running :: d.said) ∨
      ∃ row, d.said.head? = some (.asked true) ∧
        d.course.session.rows[(takenRows d.said).length]? = some row ∧
        (∀ limit, d.course.session.limits.maxPutAttempts = some limit →
          refusals d.said < limit) ∧
        (d'.said = .offered row true :: d.said ∨
          ∃ running, d'.said = .asked running :: .offered row false :: d.said) := by
  have hoffer : ∀ {v : Delivery} {row : Row}, d.course.session.stage = .offering v →
      v.remaining.head? = some row → d.said.head? = some (.asked true) ∧
        d.course.session.rows[(takenRows d.said).length]? = some row ∧
        ∀ limit, d.course.session.limits.maxPutAttempts = some limit →
          refusals d.said < limit := by
    intro v row hs hr
    obtain ⟨ha, hhead, -⟩ := h.offering hs
    refine ⟨hhead, ?_, ?_⟩
    · rw [ha.length_takenRows]
      exact ha.next_row hr
    · rw [ha.refused]
      exact ha.allowed
  cases ht with
  | completes | rests => exact Or.inl rfl
  | halts | offers => exact Or.inr (Or.inl ⟨_, rfl⟩)
  | hands hs hr =>
    obtain ⟨hhead, hrow, hleft⟩ := hoffer hs hr
    exact Or.inr (Or.inr ⟨_, hhead, hrow, hleft, Or.inl rfl⟩)
  | overflows hs hr | stops hs hr | exhausts hs hr | again hs hr =>
    obtain ⟨hhead, hrow, hleft⟩ := hoffer hs hr
    exact Or.inr (Or.inr ⟨_, hhead, hrow, hleft, Or.inr ⟨_, rfl⟩⟩)

/-! What is offered. -/

/-- Every offer came right after the input had said that it runs, and was the first row not yet
taken. -/
def Proper (rows : RowSequence) (said : List Exchange) : Prop :=
  ∀ row taken before, .offered row taken :: before <:+ said →
    before.head? = some (.asked true) ∧ rows[(takenRows before).length]? = some row

variable {rows : RowSequence} {limit k : Nat}

theorem Proper.tail {exchange : Exchange} (h : Proper rows (exchange :: said)) :
    Proper rows said :=
  fun row taken before hb => h row taken before (hb.trans (List.suffix_cons ..))

theorem Proper.asked (h : Proper rows said) (running : Bool) :
    Proper rows (.asked running :: said) := by
  intro row taken before hb
  rcases List.suffix_cons_iff.mp hb with he | hb
  · cases he
  · exact h row taken before hb

theorem Proper.offered (h : Proper rows said) (hhead : said.head? = some (.asked true))
    (hrow : rows[(takenRows said).length]? = some row) (taken : Bool) :
    Proper rows (.offered row taken :: said) := by
  intro row' taken' before hb
  rcases List.suffix_cons_iff.mp hb with he | hb
  · cases he
    exact ⟨hhead, hrow⟩
  · exact h row' taken' before hb

/-- No row was offered more often than allowed, so there were not more offers than that for every
row taken, and those of the row that was refused last. -/
structure Within (limit : Nat) (said : List Exchange) : Prop where
  total : offers said ≤ limit * (takenRows said).length + refusals said
  each : ∀ k, offersAfter k said ≤ limit

theorem offersAfter_of_lt (h : (takenRows said).length < k) : offersAfter k said = 0 := by
  induction said with
  | nil => rfl
  | cons exchange before ih =>
    cases exchange with
    | asked => simpa [offersAfter, Exchange.isOffer] using ih h
    | offered row taken =>
      have hle : (takenRows before).length ≤ (takenRows (.offered row taken :: before)).length := by
        cases taken <;> simp [takenRows]
      have hne : (takenRows before).length ≠ k := by omega
      simp [offersAfter, hne, ih (Nat.lt_of_le_of_lt hle h)]

/-- The offers of the row not taken yet are those refused in a row. -/
theorem offersAfter_eq (said : List Exchange) :
    offersAfter (takenRows said).length said = refusals said := by
  induction said with
  | nil => rfl
  | cons exchange before ih =>
    cases exchange with
    | asked => simpa [offersAfter, Exchange.isOffer, takenRows, refusals] using ih
    | offered row taken =>
      cases taken with
      | false => simpa [offersAfter, Exchange.isOffer, takenRows, refusals] using ih
      | true =>
        have hnone : offersAfter ((takenRows before).length + 1) before = 0 :=
          offersAfter_of_lt (Nat.lt_succ_self _)
        simpa [offersAfter, takenRows, refusals] using hnone

theorem Within.asked (h : Within limit said) (running : Bool) :
    Within limit (.asked running :: said) where
  total := by simpa [offers, Exchange.isOffer, takenRows, refusals] using h.total
  each k := by simpa [offersAfter, Exchange.isOffer] using h.each k

theorem Within.offered (h : Within limit said) (hl : refusals said < limit) (row : Row)
    (taken : Bool) : Within limit (.offered row taken :: said) where
  total := by
    have htotal := h.total
    simp only [offers, List.countP_cons, Exchange.isOffer, if_true] at htotal ⊢
    cases taken with
    | false =>
      simp only [takenRows, refusals, Bool.false_eq_true, if_false]
      omega
    | true =>
      simp only [takenRows, refusals, if_true, List.length_append, List.length_singleton,
        Nat.mul_add_one]
      omega
  each k := by
    by_cases hk : (takenRows said).length = k
    · subst hk
      simp only [offersAfter, offersAfter_eq, Exchange.isOffer, true_and, if_true]
      exact hl
    · simpa [offersAfter, hk] using h.each k

variable {id : SessionId} {limits : ReplayLimits} {answers : Nat → Bool} {n m : Nat}

theorem talk_session (answers : Nat → Bool) (d : Dialogue) (n : Nat) :
    (d.talk answers n).course.session.rows = d.course.session.rows ∧
      (d.talk answers n).course.session.limits = d.course.session.limits := by
  induction n with
  | zero => exact ⟨rfl, rfl⟩
  | succ n ih =>
    obtain ⟨hrows, hlimits⟩ := ((d.talk answers n).turning answers).session
    exact ⟨hrows.trans ih.1, hlimits.trans ih.2⟩

theorem Settled.talk (h : d.Settled) (answers : Nat → Bool) (n : Nat) :
    (d.talk answers n).Settled := by
  induction n with
  | zero => exact h
  | succ n ih => exact ih.turn (turning answers _)

theorem Settled.proper (h : d.Settled) (hp : Proper d.course.session.rows d.said)
    (answers : Nat → Bool) (n : Nat) :
    Proper d.course.session.rows (d.talk answers n).said := by
  induction n with
  | zero => exact hp
  | succ n ih =>
    have hspoken := (h.talk answers n).speaks (turning answers _)
    rw [(talk_session answers d n).1] at hspoken
    rw [Dialogue.talk]
    rcases hspoken with he | ⟨running, he⟩ | ⟨row, hhead, hrow, -, he | ⟨running, he⟩⟩ <;> rw [he]
    · exact ih
    · exact ih.asked running
    · exact ih.offered hhead hrow true
    · exact (ih.offered hhead hrow false).asked running

theorem Settled.within (h : d.Settled) (hl : d.course.session.limits.maxPutAttempts = some limit)
    (hw : Within limit d.said) (answers : Nat → Bool) (n : Nat) :
    Within limit (d.talk answers n).said := by
  induction n with
  | zero => exact hw
  | succ n ih =>
    have hspoken := (h.talk answers n).speaks (turning answers _)
    rw [(talk_session answers d n).2] at hspoken
    rw [Dialogue.talk]
    rcases hspoken with he | ⟨running, he⟩ | ⟨row, -, -, hleft, he | ⟨running, he⟩⟩ <;> rw [he]
    · exact ih
    · exact ih.asked running
    · exact ih.offered (hleft limit hl) row true
    · exact (ih.offered (hleft limit hl) row false).asked running

/-- How many turns are left at most: for every row one to ask and as many as it may be offered, and
one to see that no row is left. -/
def toEnd (limit : Nat) (d : Dialogue) : Nat :=
  match d.course.session.stage with
  | .delivering v => (limit + 1) * v.remaining.length + 1
  | .offering v => (limit + 1) * v.remaining.length - v.attempts
  | _ => 0

theorem Settled.toEnd_lt (h : d.Settled) (ht : d.Turning d')
    (hl : d.course.session.limits.maxPutAttempts = some limit)
    (hgoing : d.course.session.isEnded = false) : d'.toEnd limit < d.toEnd limit := by
  have hleft : ∀ {v : Delivery}, d.course.session.stage = .offering v →
      v.attempts < limit ∧
        (limit + 1) * v.remaining.length = (limit + 1) * v.remaining.tail.length + (limit + 1) := by
    intro v hs
    obtain ⟨ha, -, hne⟩ := h.offering hs
    obtain ⟨row, rest, hrem⟩ := List.exists_cons_of_ne_nil hne
    exact ⟨ha.allowed limit hl, by rw [hrem, List.tail_cons, List.length_cons, Nat.mul_add_one]⟩
  cases ht with
  | completes hs | halts hs => simp [toEnd, hs]
  | offers hs =>
    simp only [toEnd, hs, Course.atStage_session]
    omega
  | hands hs =>
    obtain ⟨hattempts, hrest⟩ := hleft hs
    simp only [toEnd, hs, Session.accepted, Delivery.accepted]
    omega
  | overflows hs | stops hs | exhausts hs =>
    obtain ⟨hattempts, hrest⟩ := hleft hs
    simp only [toEnd, hs, Course.atStage_session]
    omega
  | again hs =>
    obtain ⟨hattempts, hrest⟩ := hleft hs
    simp only [toEnd, hs, Course.atStage_session]
    omega
  | rests hd ho =>
    cases hs : d.course.session.stage with
    | submitted | waiting => simp [Settled, hs] at h
    | delivering v => exact (hd v hs).elim
    | offering v =>
      obtain ⟨row, rest, hrem⟩ := List.exists_cons_of_ne_nil (h.offering hs).2.2
      exact (ho v row hs (congrArg List.head? hrem)).elim
    | ended => simp [Session.isEnded, hs] at hgoing

theorem Settled.ends (h : d.Settled) (hl : d.course.session.limits.maxPutAttempts = some limit)
    (answers : Nat → Bool) :
    ∃ n result, (d.talk answers n).course.session.stage = .ended result := by
  have hless : ∀ n, (∀ m, m < n → (d.talk answers m).course.session.isEnded = false) →
      (d.talk answers n).toEnd limit + n ≤ d.toEnd limit := by
    intro n hgoing
    induction n with
    | zero => exact Nat.le_refl _
    | succ n ih =>
      have hprev := ih fun m hm => hgoing m (Nat.lt_succ_of_lt hm)
      have hlimits := (talk_session answers d n).2
      have hlt := (h.talk answers n).toEnd_lt (turning answers _) (by rw [hlimits, hl])
        (hgoing n (Nat.lt_succ_self n))
      rw [Dialogue.talk]
      omega
  obtain ⟨n, hn⟩ : ∃ n, (d.talk answers n).course.session.isEnded = true := by
    refine Classical.byContradiction fun hnone => ?_
    have := hless (d.toEnd limit + 1) fun m _ =>
      Bool.eq_false_iff.mpr fun he => hnone ⟨m, he⟩
    omega
  cases hs : (d.talk answers n).course.session.stage with
  | ended result => exact ⟨n, result, hs⟩
  | _ => simp [Session.isEnded, hs] at hn

end Dialogue
end RowReplay
