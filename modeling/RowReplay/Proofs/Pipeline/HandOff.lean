import Mathlib.Data.List.Basic
import RowReplay.Pipeline.HandOff

/-!
What goes through a hand-off. As long as its receiver is there, nothing is lost, added or moved to
another place; and nobody is promised room that is not there.
-/
namespace RowReplay.HandOff

variable {τ α : Type} {h h' : HandOff τ α} {t : τ} {a : α}

/-- What is queued has room, and so has what those send who hold room. -/
def Fits (h : HandOff τ α) : Prop := h.queue.length + h.granted.length ≤ h.capacity

/-- From one state to the next, with what came in and what went out. -/
structure Passes (h h' : HandOff τ α) (ins outs : List α) : Prop where
  capacity : h'.capacity = h.capacity
  isOpen : h'.isOpen = h.isOpen
  queue : h.queue ++ ins = outs ++ h'.queue
  fits : h.Fits → h'.Fits

theorem fits_fresh (capacity : Nat) : (fresh capacity : HandOff τ α).Fits := Nat.zero_le _

theorem Fits.length_queue_le (hf : h.Fits) : h.queue.length ≤ h.capacity :=
  Nat.le_trans (Nat.le_add_right ..) hf

theorem fits_close : h.close.1.Fits := Nat.zero_le _

namespace Passes

theorem refl (h : HandOff τ α) : h.Passes h [] [] := ⟨rfl, rfl, List.append_nil _, id⟩

/-- Nothing is queued or promised that was not before. -/
theorem of_granted_le (hc : h'.capacity = h.capacity) (ho : h'.isOpen = h.isOpen)
    (hq : h'.queue = h.queue) (hg : h'.granted.length ≤ h.granted.length) : h.Passes h' [] [] := by
  refine ⟨hc, ho, by simp [hq], fun hf => ?_⟩
  rw [Fits, hq, hc]
  exact Nat.le_trans (Nat.add_le_add_left hg _) hf

theorem queue_eq (hp : h.Passes h' [] []) : h'.queue = h.queue := by
  simpa using hp.queue.symm

/-- Something is sent into room that there is. -/
theorem send [DecidableEq τ] (hroom : h.Fits → h.queue.length + 1 + (h.granted.erase t).length ≤ h.capacity) :
    h.Passes (h.send t a) [a] [] := by
  refine ⟨rfl, rfl, rfl, fun hf => ?_⟩
  simpa [HandOff.send, Fits] using hroom hf

end Passes

/-! Room that has become free. -/

@[simp] theorem capacity_passRoom (h : HandOff τ α) : h.passRoom.1.capacity = h.capacity := by
  unfold passRoom
  split <;> rfl

@[simp] theorem isOpen_passRoom (h : HandOff τ α) : h.passRoom.1.isOpen = h.isOpen := by
  unfold passRoom
  split <;> rfl

@[simp] theorem queue_passRoom (h : HandOff τ α) : h.passRoom.1.queue = h.queue := by
  unfold passRoom
  split <;> rfl

theorem length_granted_passRoom_le (h : HandOff τ α) :
    h.passRoom.1.granted.length ≤ h.granted.length + 1 := by
  unfold passRoom
  split <;> simp

theorem receive_of_queue {rest : List α} (hq : h.queue = a :: rest) :
    h.receive =
      ({ h with queue := rest }.passRoom.1, some (a, { h with queue := rest }.passRoom.2)) := by
  unfold receive
  rw [hq]

/-- The oldest goes out. -/
theorem passes_receive {next : Option τ} (hr : h.receive = (h', some (a, next))) :
    h.Passes h' [] [a] := by
  cases hq : h.queue with
  | nil => simp [receive, hq] at hr
  | cons first rest =>
    rw [receive_of_queue hq] at hr
    obtain ⟨rfl, rfl, -⟩ : _ ∧ first = a ∧ _ := by simpa using hr
    refine ⟨by simp, by simp, by simp [hq], fun hf => ?_⟩
    have := length_granted_passRoom_le { h with queue := rest }
    simp only [Fits, hq, List.length_cons, queue_passRoom, capacity_passRoom] at hf this ⊢
    omega

/-! Offers. -/

variable [DecidableEq τ]

/-- Only what is accepted comes in, and only while the receiver is there. -/
theorem passes_offer {o : Offer} (ho : h.offer t a = (h', o)) :
    h.Passes h' (if o = .accepted then [a] else []) [] ∧
      (o = .accepted → h.isOpen = true) ∧ (h.isOpen = false → o = .refused) := by
  unfold offer reserve at ho
  cases hopen : h.isOpen with
  | false =>
    simp only [hopen, Bool.not_false, if_true] at ho
    cases ho
    exact ⟨.refl h, nofun, fun _ => rfl⟩
  | true =>
    simp only [hopen, Bool.not_true, Bool.false_eq_true, if_false] at ho
    by_cases hfree : 0 < h.free
    · simp only [hfree, if_true] at ho
      cases ho
      refine ⟨⟨rfl, hopen.symm, rfl, fun _ => ?_⟩, fun _ => rfl, nofun⟩
      have herase : ((h.granted ++ [t]).erase t).length = h.granted.length := by
        rw [List.length_erase_of_mem (by simp)]
        simp
      simp only [HandOff.send, Fits, List.length_append, List.length_singleton, herase]
      unfold free at hfree
      omega
    · simp only [hfree, if_false] at ho
      cases ho
      exact ⟨.of_granted_le rfl hopen.symm rfl (Nat.le_refl _), nofun, nofun⟩

theorem passes_withdraw (h : HandOff τ α) (t : τ) : h.Passes (h.withdraw t).1 [] [] := by
  unfold withdraw
  split
  case isTrue hg =>
    refine .of_granted_le (by simp) (by simp) (by simp) ?_
    refine Nat.le_trans (length_granted_passRoom_le _) ?_
    have := List.length_pos_of_mem hg
    simp only [List.length_erase_of_mem hg]
    omega
  case isFalse => exact .of_granted_le rfl rfl rfl (Nat.le_refl _)

theorem passes_review {isDue : Bool} {o : Offer} {next : Option τ}
    (ho : h.review t a isDue = (h', o, next)) :
    h.Passes h' (if o = .accepted then [a] else []) [] ∧
      (o = .accepted → h.isOpen = true) ∧ (h.isOpen = false → o = .refused) := by
  unfold review room at ho
  cases hopen : h.isOpen with
  | false =>
    simp only [hopen, Bool.not_false, if_true] at ho
    cases ho
    exact ⟨.refl h, nofun, fun _ => rfl⟩
  | true =>
    simp only [hopen, Bool.not_true, Bool.false_eq_true, if_false] at ho
    by_cases hg : t ∈ h.granted
    · simp only [hg, if_true] at ho
      cases ho
      refine ⟨.send fun hf => ?_, fun _ => rfl, nofun⟩
      have := List.length_pos_of_mem hg
      rw [List.length_erase_of_mem hg]
      unfold Fits at hf
      omega
    · simp only [hg, if_false] at ho
      cases isDue with
      | false =>
        cases ho
        exact ⟨.refl h, nofun, nofun⟩
      | true =>
        cases ho
        exact ⟨passes_withdraw h t, nofun, nofun⟩

/-! A hand-off with one sender. -/

/-- Nobody holds room or waits for it. -/
def Unclaimed (h : HandOff τ α) : Prop := h.granted = [] ∧ h.waiting = []

/-- One sender alone holds room, or waits because there is none. -/
def Claimed (h : HandOff τ α) (t : τ) : Prop :=
  h.granted = [t] ∧ h.waiting = [] ∨
    h.granted = [] ∧ h.waiting = [t] ∧ h.capacity ≤ h.queue.length

omit [DecidableEq τ] in
theorem unclaimed_fresh (capacity : Nat) : (fresh capacity : HandOff τ α).Unclaimed := ⟨rfl, rfl⟩

omit [DecidableEq τ] in
/-- Room that becomes free goes to the one sender, if it waits. -/
theorem claimed_receive {next : Option τ} (hr : h.receive = (h', some (a, next))) :
    (h.Unclaimed → h'.Unclaimed) ∧ (h.Claimed t → h'.Claimed t) := by
  cases hq : h.queue with
  | nil => simp [receive, hq] at hr
  | cons first rest =>
    rw [receive_of_queue hq] at hr
    obtain ⟨rfl, -⟩ := Prod.mk.inj hr
    constructor
    · rintro ⟨hg, hw⟩
      simp [Unclaimed, passRoom, hg, hw]
    · rintro (⟨hg, hw⟩ | ⟨hg, hw, -⟩) <;> simp [Claimed, passRoom, hg, hw]

theorem claimed_offer {o : Offer} (hu : h.Unclaimed) (ho : h.offer t a = (h', o)) :
    if o = .waiting then h'.Claimed t else h'.Unclaimed := by
  obtain ⟨hg, hw⟩ := hu
  unfold offer reserve at ho
  cases hopen : h.isOpen with
  | false =>
    simp only [hopen, Bool.not_false, if_true] at ho
    cases ho
    exact ⟨hg, hw⟩
  | true =>
    simp only [hopen, Bool.not_true, Bool.false_eq_true, if_false] at ho
    by_cases hfree : 0 < h.free
    · simp only [hfree, if_true] at ho
      cases ho
      simp [HandOff.send, Unclaimed, hg, hw]
    · simp only [hfree, if_false] at ho
      cases ho
      refine Or.inr ⟨hg, by simp [hw], ?_⟩
      simp only [free, hg, List.length_nil] at hfree
      dsimp only
      omega

/-- An empty hand-off takes what is offered. -/
theorem offer_of_empty {o : Offer} (hu : h.Unclaimed) (hopen : h.isOpen = true) (hq : h.queue = [])
    (hc : 0 < h.capacity) (ho : h.offer t a = (h', o)) : o = .accepted := by
  have hfree : 0 < h.free := by simpa [free, hu.1, hq] using hc
  simp only [offer, reserve, hopen, hfree] at ho
  cases ho
  rfl

/-- What is offered to a full hand-off waits. -/
theorem offer_of_full (hu : h.Unclaimed) (hopen : h.isOpen = true) (hfull : h.free = 0) :
    h.offer t a = ({ h with waiting := [t] }, .waiting) := by
  simp [offer, reserve, hopen, hfull, hu.2]

/-- An offer that has waited in vain leaves a hand-off as it was. -/
theorem review_of_full (hu : h.Unclaimed) (hopen : h.isOpen = true) :
    { h with waiting := [t] }.review t a true = (h, .refused, none) := by
  have hnone : t ∉ h.granted := by simp [hu.1]
  have hroom : { h with waiting := [t] }.room t = .waiting := by simp [room, hopen, hnone]
  have hback : { h with waiting := [] } = h := by rw [← hu.2]
  simp only [review, hroom, withdraw, hnone, if_true, if_false, List.erase_cons_head, hback]

theorem unclaimed_withdraw (hc : h.Claimed t) : (h.withdraw t).1.Unclaimed := by
  rcases hc with ⟨hg, hw⟩ | ⟨hg, hw, -⟩ <;> simp [Unclaimed, withdraw, passRoom, hg, hw]

theorem claimed_review {isDue : Bool} {o : Offer} {next : Option τ} (hc : h.Claimed t)
    (ho : h.review t a isDue = (h', o, next)) (hopen : h.isOpen = true) :
    if o = .waiting then h'.Claimed t else h'.Unclaimed := by
  unfold review room at ho
  simp only [hopen, Bool.not_true, Bool.false_eq_true, if_false] at ho
  by_cases hg : t ∈ h.granted
  · simp only [hg, if_true] at ho
    cases ho
    rcases hc with ⟨hg, hw⟩ | ⟨hg', -⟩
    · simp [HandOff.send, Unclaimed, hg, hw]
    · simp [hg'] at hg
  · simp only [hg, if_false] at ho
    cases isDue with
    | false =>
      cases ho
      exact hc
    | true =>
      cases ho
      exact unclaimed_withdraw hc

/-- An empty hand-off has given its room to the one who waits. -/
theorem review_of_empty {isDue : Bool} {o : Offer} {next : Option τ} (hc : h.Claimed t)
    (hopen : h.isOpen = true) (hq : h.queue = []) (hpos : 0 < h.capacity)
    (ho : h.review t a isDue = (h', o, next)) : o = .accepted := by
  have hg : t ∈ h.granted := by
    rcases hc with ⟨hg, -⟩ | ⟨-, -, hfull⟩
    · simp [hg]
    · simp only [hq, List.length_nil] at hfull
      omega
  simp only [review, room, hopen, hg] at ho
  cases ho
  rfl

/-- An offer is refused at once only if the receiver is gone. -/
theorem isOpen_of_refused (ho : h.offer t a = (h', .refused)) : h.isOpen = false := by
  unfold offer reserve at ho
  cases hopen : h.isOpen with
  | false => rfl
  | true =>
    simp only [hopen, Bool.not_true, Bool.false_eq_true, if_false] at ho
    by_cases hfree : 0 < h.free <;> simp [hfree] at ho

/-- An offer that waits is refused when its time is over and there is still no room. -/
theorem full_of_refused {isDue : Bool} {next : Option τ} (hc : h.Claimed t)
    (hopen : h.isOpen = true) (ho : h.review t a isDue = (h', .refused, next)) :
    isDue = true ∧ h.capacity ≤ h.queue.length := by
  unfold review room at ho
  simp only [hopen, Bool.not_true, Bool.false_eq_true, if_false] at ho
  rcases hc with ⟨hg, -⟩ | ⟨hg, -, hfull⟩
  · simp [hg] at ho
  · refine ⟨?_, hfull⟩
    cases isDue with
    | false => simp [hg] at ho
    | true => rfl

/-! Those who use a hand-off go by other names. -/

section Rename

variable {σ : Type} {f : τ → σ}

/-- The same hand-off, whose users go by other names. -/
def rename (f : τ → σ) (h : HandOff τ α) : HandOff σ α :=
  ⟨h.capacity, h.queue, h.granted.map f, h.waiting.map f, h.isOpen⟩

omit [DecidableEq τ] in
theorem passRoom_rename (f : τ → σ) (h : HandOff τ α) :
    (h.rename f).passRoom = (h.passRoom.1.rename f, h.passRoom.2.map f) := by
  cases hw : h.waiting <;> simp [passRoom, rename, hw]

omit [DecidableEq τ] in
theorem receive_rename (f : τ → σ) (h : HandOff τ α) :
    (h.rename f).receive =
      (h.receive.1.rename f, h.receive.2.map fun taken => (taken.1, taken.2.map f)) := by
  cases hq : h.queue with
  | nil => simp [receive, rename, hq]
  | cons a rest =>
    rw [receive_of_queue hq, receive_of_queue (show (h.rename f).queue = a :: rest from hq)]
    have hpass := passRoom_rename f { h with queue := rest }
    exact congrArg (fun passed => (passed.1, some (a, passed.2))) hpass

variable [DecidableEq σ]

theorem send_rename (hf : f.Injective) (h : HandOff τ α) (t : τ) (a : α) :
    (h.rename f).send (f t) a = (h.send t a).rename f := by
  simp [send, rename, List.map_erase hf]

theorem withdraw_rename (hf : f.Injective) (h : HandOff τ α) (t : τ) :
    (h.rename f).withdraw (f t) = ((h.withdraw t).1.rename f, (h.withdraw t).2.map f) := by
  have hpass := passRoom_rename f { h with granted := h.granted.erase t }
  simp only [rename, List.map_erase hf] at hpass
  by_cases hg : t ∈ h.granted
  · simpa [withdraw, rename, hg, hf.eq_iff] using hpass
  · simp [withdraw, rename, hg, hf.eq_iff, List.map_erase hf]

theorem offer_rename (hf : f.Injective) (h : HandOff τ α) (t : τ) (a : α) :
    (h.rename f).offer (f t) a = ((h.offer t a).1.rename f, (h.offer t a).2) := by
  have hfree : (h.rename f).free = h.free := by simp [free, rename]
  unfold offer reserve
  rw [hfree]
  cases ho : h.isOpen with
  | false => simp [rename, ho]
  | true =>
    by_cases hroom : 0 < h.free
    · simp [rename, ho, hroom, send, List.map_erase hf]
    · simp [rename, ho, hroom]

theorem review_rename (hf : f.Injective) (h : HandOff τ α) (t : τ) (a : α) (isDue : Bool) :
    (h.rename f).review (f t) a isDue =
      ((h.review t a isDue).1.rename f, (h.review t a isDue).2.1,
        (h.review t a isDue).2.2.map f) := by
  have hroom : (h.rename f).room (f t) = h.room t := by simp [room, rename, hf.eq_iff]
  unfold review
  rw [hroom]
  cases h.room t with
  | granted => simp [send_rename hf]
  | closed => rfl
  | waiting => cases isDue <;> simp [withdraw_rename hf]

end Rename

/-- Nobody waits on whose time is over. -/
theorem ne_waiting_of_due {o : Offer} {next : Option τ}
    (ho : h.review t a true = (h', o, next)) : o ≠ .waiting := by
  unfold review at ho
  split at ho <;> cases ho <;> exact nofun

end RowReplay.HandOff
