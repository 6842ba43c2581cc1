import RowReplay.Demo.Exchange
import RowReplay.Proofs.Pipeline.HandOff

/-!
An exchange comes to its end: in every round the session sends a row at least, or ends, and the
consumer takes what was sent. So no attempt is left waiting for room, and all rows arrive, however
many there are and however few have room at a time.
-/
namespace RowReplay.Demo.Exchange

variable {x : Exchange} {s : Session} {d : Delivery} {row : Row} {h : HandOff Unit Row} {k : Nat}

/-- Nothing is lost between session and consumer: what was delivered has been received or is
queued. -/
structure Sound (s : Session) (d : Delivery) (h : HandOff Unit Row) (consumed : Nat) : Prop where
  isOpen : h.isOpen = true
  capacity : 0 < h.capacity
  total : d.delivered + d.remaining.length = s.rows.length
  received : consumed + h.queue.length = d.delivered

/-- An exchange whose session has looked at its next row: it offers the row, or has ended. -/
inductive Looked (s : Session) : Delivery → Exchange → Prop
  | offering {d : Delivery} {h : HandOff Unit Row} {k : Nat} (hs : Sound s d h k)
      (hd : d.remaining ≠ []) (hroom : h.Unclaimed ∨ h.Claimed ()) :
      Looked s d ⟨{ s with stage := .offering d }, true, h, k⟩
  | ended {d : Delivery} {h : HandOff Unit Row} {k : Nat} (hs : Sound s d h k)
      (hd : d.remaining = []) (hroom : h.Unclaimed) :
      Looked s d ⟨{ s with stage := .ended (.ok ⟨s.id, d.delivered, s.rows.length⟩) }, true, h, k⟩

theorem Looked.sound (hx : Looked s d x) : Sound s d x.handOff x.consumed := by
  cases hx <;> assumption

theorem Looked.isEnded_iff (hx : Looked s d x) : x.session.isEnded = true ↔ d.remaining = [] := by
  cases hx with
  | offering _ hd => exact iff_of_false Bool.false_ne_true hd
  | ended _ hd => exact iff_of_true rfl hd

theorem Looked.present (hx : Looked s d x) : x.present = x := by
  cases hx <;> rfl

theorem looked_present (hs : Sound s d h k) (hroom : h.Unclaimed) :
    Looked s d (present ⟨{ s with stage := .delivering d }, true, h, k⟩) := by
  unfold Exchange.present Session.next Delivery.next?
  cases hd : d.remaining with
  | nil =>
    simp only [hd, List.head?_nil, if_true]
    exact .ended hs hd hroom
  | cons row rest =>
    simp only [hd, List.head?_cons, if_true]
    exact .offering hs (by simp [hd]) (.inl hroom)

theorem handOff_present (x : Exchange) : x.present.handOff = x.handOff := by
  unfold Exchange.present
  split <;> rfl

/-- A turn begins with a look at the next row. -/
theorem turn_present (hx : Looked s d x.present) (share : Nat) :
    turn share x.present = turn share x := by
  cases share with
  | zero => exact hx.present
  | succ share =>
    unfold turn
    rw [hx.present]

/-- An offered row is sent, or the session waits because there is no room. -/
theorem offer_cases (row : Row) (hs : Sound s d h k) (hroom : h.Unclaimed ∨ h.Claimed ())
    (hpatient : 0 < s.limits.putTimeout.nanos) :
    (∃ h', h.Passes h' [row] [] ∧ h'.Unclaimed ∧
      offer ⟨{ s with stage := .offering d }, true, h, k⟩ d row =
        (⟨{ s with stage := .delivering d.accepted }, true, h', k⟩, true)) ∨
    ∃ h', h.Passes h' [] [] ∧ h'.Claimed () ∧ h.queue ≠ [] ∧
      offer ⟨{ s with stage := .offering d }, true, h, k⟩ d row =
        (⟨{ s with stage := .offering d }, true, h', k⟩, false) := by
  have hopen := hs.isOpen
  rcases hroom with hu | hc
  · obtain ⟨hg, hw⟩ := id hu
    by_cases hfree : 0 < h.free
    · have ho : h.offer () row =
          ({ h with granted := h.granted ++ [()] }.send () row, .accepted) := by
        simp [HandOff.offer, HandOff.reserve, hopen, hfree]
      refine .inl ⟨_, (HandOff.passes_offer ho).1, HandOff.claimed_offer hu ho, ?_⟩
      simp [Exchange.offer, requested, HandOff.reserve, HandOff.room, hg, hw, hopen, hfree,
        Session.accepted]
    · have ho : h.offer () row = ({ h with waiting := h.waiting ++ [()] }, .waiting) := by
        simp [HandOff.offer, HandOff.reserve, hopen, hfree]
      have hclaimed : HandOff.Claimed { h with waiting := h.waiting ++ [()] } () :=
        HandOff.claimed_offer hu ho
      refine .inr ⟨_, (HandOff.passes_offer ho).1, hclaimed, fun hq => ?_, ?_⟩
      · cases HandOff.offer_of_empty hu hopen hq hs.capacity ho
      · simp [Exchange.offer, requested, HandOff.reserve, HandOff.room, hg, hw, hopen, hfree,
          hpatient]
  · by_cases hg : () ∈ h.granted
    · have ho : h.review () row false = (h.send () row, .accepted, none) := by
        simp [HandOff.review, HandOff.room, hopen, hg]
      refine .inl ⟨_, (HandOff.passes_review ho).1, HandOff.claimed_review hc ho hopen, ?_⟩
      simp [Exchange.offer, requested, HandOff.room, hg, hopen, Session.accepted]
    · have ho : h.review () row false = (h, .waiting, none) := by
        simp [HandOff.review, HandOff.room, hopen, hg]
      have hw : () ∈ h.waiting := by
        rcases hc with ⟨hg', -⟩ | ⟨-, hw, -⟩
        · simp [hg'] at hg
        · simp [hw]
      refine .inr ⟨h, .refl h, hc, fun hq => ?_, ?_⟩
      · cases HandOff.review_of_empty hc hopen hq hs.capacity ho
      · simp [Exchange.offer, requested, HandOff.room, hg, hw, hopen, hpatient]

/-- A row that is sent goes from the session to the hand-off. -/
theorem Sound.sent {row : Row} {rest : RowSequence} {delivered attempts : Nat}
    {h' : HandOff Unit Row} (hs : Sound s ⟨row :: rest, delivered, attempts⟩ h k)
    (hp : h.Passes h' [row] []) : Sound s ⟨rest, delivered + 1, 0⟩ h' k := by
  have htotal := hs.total
  have hreceived := hs.received
  have hqueue := congrArg List.length hp.queue
  simp only [List.length_append, List.length_cons, List.length_nil] at htotal hqueue
  refine ⟨hp.isOpen.trans hs.isOpen, hp.capacity ▸ hs.capacity, ?_, ?_⟩
  · dsimp only
    omega
  · dsimp only at hreceived ⊢
    omega

/-- A turn sends some rows, and one at least if nothing is queued. -/
theorem Looked.turn (hpatient : 0 < s.limits.putTimeout.nanos) (share : Nat) (hx : Looked s d x) :
    ∃ d', Looked s d' (turn share x) ∧ d'.remaining.length ≤ d.remaining.length ∧
      (0 < share → x.handOff.queue = [] → d.remaining ≠ [] →
        d'.remaining.length < d.remaining.length) := by
  induction share generalizing x d with
  | zero =>
    have hlast : turn 0 x = x := hx.present
    exact ⟨d, hlast.symm ▸ hx, Nat.le_refl _, nofun⟩
  | succ share ih =>
    have hpresent := hx.present
    cases hx with
    | ended hs hd hroom =>
      exact ⟨d, .ended hs hd hroom, Nat.le_refl _, fun _ _ hne => absurd hd hne⟩
    | @offering h k hs hd hroom =>
      obtain ⟨row, rest, hrest⟩ := List.exists_cons_of_ne_nil hd
      obtain ⟨remaining, delivered, attempts⟩ := d
      obtain rfl : remaining = row :: rest := hrest
      unfold Exchange.turn
      rw [hpresent]
      dsimp only
      rcases offer_cases row hs hroom hpatient with ⟨h', hp, hu, heq⟩ | ⟨h', hp, hc, hne, heq⟩
      · rw [heq]
        dsimp only
        have hlooked := looked_present (hs.sent hp) hu
        obtain ⟨d', hx', hle, -⟩ := ih hlooked
        rw [turn_present hlooked] at hx'
        exact ⟨d', hx', Nat.le_succ_of_le hle, fun _ _ _ => Nat.lt_succ_of_le hle⟩
      · rw [heq]
        have hs' : Sound s ⟨row :: rest, delivered, attempts⟩ h' k :=
          ⟨hp.isOpen.trans hs.isOpen, hp.capacity ▸ hs.capacity, hs.total,
            hp.queue_eq ▸ hs.received⟩
        exact ⟨_, .offering hs' hd (.inr hc), Nat.le_refl _, fun _ hq => absurd hq hne⟩

/-- The consumer takes all there is, and room that becomes free goes to the session. -/
theorem receiveUpTo_queue (h : HandOff Unit Row) : ∃ h', receiveUpTo h.queue.length h =
    (h', h.queue.length) ∧ h'.queue = [] ∧ h'.isOpen = h.isOpen ∧ h'.capacity = h.capacity ∧
      (h.Unclaimed → h'.Unclaimed) ∧ (h.Claimed () → h'.Claimed ()) := by
  generalize hq : h.queue = queue
  induction queue generalizing h with
  | nil => exact ⟨h, rfl, hq, rfl, rfl, id, id⟩
  | cons row rest ih =>
    have hr := HandOff.receive_of_queue hq
    have hp := HandOff.passes_receive hr
    obtain ⟨hunclaimed, hclaimed⟩ := HandOff.claimed_receive (t := ()) hr
    generalize { h with queue := rest }.passRoom = passed at hr hp hunclaimed hclaimed
    have hqueue : passed.1.queue = rest := by simpa [hq] using hp.queue.symm
    obtain ⟨h', heq, hempty, hopen, hcapacity, hu, hc⟩ := ih passed.1 hqueue
    refine ⟨h', ?_, hempty, hopen.trans hp.isOpen, hcapacity.trans hp.capacity, hu ∘ hunclaimed,
      hc ∘ hclaimed⟩
    simp only [List.length_cons, receiveUpTo, hr, heq]

theorem Looked.drain (hx : Looked s d x) : Looked s d x.drain ∧ x.drain.handOff.queue = [] := by
  obtain ⟨h', heq, hempty, hopen, hcapacity, hu, hc⟩ := receiveUpTo_queue x.handOff
  have hdrain :
      x.drain = { x with handOff := h', consumed := x.consumed + x.handOff.queue.length } := by
    unfold Exchange.drain
    rw [heq]
  have hs' : Sound s d h' (x.consumed + x.handOff.queue.length) := by
    have hs := hx.sound
    refine ⟨hopen.trans hs.isOpen, hcapacity ▸ hs.capacity, hs.total, ?_⟩
    rw [hempty, List.length_nil, Nat.add_zero, hs.received]
  rw [hdrain]
  refine ⟨?_, hempty⟩
  cases hx with
  | offering hs hd hroom => exact .offering hs' hd (hroom.imp hu hc)
  | ended hs hd hroom => exact .ended hs' hd (hu hroom)

/-- The session has delivered all of its rows, and the consumer has received them. -/
def Complete (s : Session) (x : Exchange) : Prop :=
  x.result = .ok ⟨s.id, s.rows.length, s.rows.length⟩ ∧ x.consumed = s.rows.length

theorem Looked.complete (hx : Looked s d x) (hd : d.remaining = []) (hq : x.handOff.queue = []) :
    Complete s x := by
  have hs := hx.sound
  have hdelivered : d.delivered = s.rows.length := by simpa [hd] using hs.total
  refine ⟨?_, by simpa [hq, hdelivered] using hs.received⟩
  cases hx with
  | offering _ hne => exact absurd hd hne
  | ended => rw [← hdelivered]; rfl

/-- A round for each row that is still to come, and one for the end. -/
theorem Looked.rounds (hpatient : 0 < s.limits.putTimeout.nanos) {n share : Nat} (hx : Looked s d x)
    (hq : x.handOff.queue = []) (hshare : 0 < share) (hn : d.remaining.length < n) :
    Complete s (rounds n share x) := by
  induction n generalizing x d share with
  | zero => exact absurd hn (Nat.not_lt_zero _)
  | succ n ih =>
    obtain ⟨d', hturn, hle, hless⟩ := hx.turn hpatient share
    obtain ⟨hdrain, hempty⟩ := hturn.drain
    unfold Exchange.rounds
    dsimp only
    split
    · next hended => exact hdrain.complete (hdrain.isEnded_iff.mp hended) hempty
    · next hgoing =>
      have hne : d'.remaining ≠ [] := fun hd => hgoing (hdrain.isEnded_iff.mpr hd)
      have hd : d.remaining ≠ [] := fun hd => hne (List.length_eq_zero_iff.mp (by simp_all))
      have hlt := hless hshare hq hd
      exact ih hdrain hempty (by decide) (by omega)

theorem rounds_present (hx : Looked s d x.present) (n share : Nat) :
    rounds (n + 1) share x.present = rounds (n + 1) share x := by
  unfold Exchange.rounds
  rw [turn_present hx]

/-- A session whose gate is open delivers all of its rows. -/
theorem complete_run (hgate : s.gate = .opened) (hpatient : 0 < s.limits.putTimeout.nanos)
    (now capacity : Nat) : Complete s (run s now capacity true) := by
  have hlook : (s.begin now).look now =
      some ({ s with stage := .delivering (.start s.rows) }, .ready) := by
    simp only [Session.begin, Session.look, hgate]
  have hs : Sound s (.start s.rows) (.fresh capacity) 0 :=
    ⟨rfl, Nat.lt_of_lt_of_le Nat.one_pos (Nat.le_max_right ..), Nat.zero_add _, rfl⟩
  have hx := looked_present hs (HandOff.unclaimed_fresh capacity)
  unfold run
  dsimp only
  rw [hlook]
  dsimp only
  rw [← rounds_present hx]
  exact hx.rounds hpatient (by rw [handOff_present]; rfl) (by decide) (Nat.lt_succ_self _)

end RowReplay.Demo.Exchange
