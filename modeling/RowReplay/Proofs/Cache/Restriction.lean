import RowReplay.Proofs.Cache.Callers

/-!
One key of a cache alone. Where the loads and calls of all other keys are left out, the loads and
calls of the key are renumbered in the same order, and everything else about the key stays. Each
operation on the key does the same on both sides, and one on another key does nothing on the smaller
one.
-/
namespace RowReplay

section Lists

variable {α : Type} {p : α → Bool} {f : α → α} {l : List α} {a : α} {i j : Nat}

/-- The place that a member of a list has where the members that fail a test are left out. -/
def placeAmong (p : α → Bool) (l : List α) (i : Nat) : Nat := (l.take i).countP p

theorem placeAmong_append_of_le (h : i ≤ l.length) (m : List α) :
    placeAmong p (l ++ m) i = placeAmong p l i := by
  rw [placeAmong, placeAmong, List.take_append_of_le_length h]

theorem placeAmong_length (l : List α) : placeAmong p l l.length = (l.filter p).length := by
  rw [placeAmong, List.take_length, List.countP_eq_length_filter]

theorem placeAmong_modify (h : ∀ a, p (f a) = p a) (l : List α) (i j : Nat) :
    placeAmong p (l.modify i f) j = placeAmong p l j := by
  unfold placeAmong
  induction l generalizing i j with
  | nil => simp
  | cons b l ih =>
    cases j with
    | zero => rfl
    | succ j =>
      cases i with
      | zero => simp [List.countP_cons, h]
      | succ i => simp [List.countP_cons, ih]

theorem getElem?_placeAmong (ha : l[i]? = some a) (hp : p a) :
    (l.filter p)[placeAmong p l i]? = some a := by
  unfold placeAmong
  induction l generalizing i with
  | nil => simp at ha
  | cons b l ih =>
    cases i with
    | zero =>
      obtain rfl : b = a := by simpa using ha
      simp [hp]
    | succ i =>
      have hrest := ih (by simpa using ha)
      by_cases hb : p b
      · simp [hb, hrest]
      · simp [hb, hrest]

/-- Places keep their order. -/
theorem placeAmong_lt (ha : l[i]? = some a) (hp : p a) (hij : i < j) :
    placeAmong p l i < placeAmong p l j := by
  have hle : (l.take (i + 1)).countP p ≤ (l.take j).countP p :=
    (List.take_sublist_take_left hij).countP_le
  rw [List.take_add_one, ha] at hle
  simp only [List.countP_append, Option.toList_some, List.countP_singleton, hp, if_true] at hle
  exact hle

theorem placeAmong_inj {b : α} (ha : l[i]? = some a) (hpa : p a) (hb : l[j]? = some b) (hpb : p b) :
    placeAmong p l i = placeAmong p l j ↔ i = j := by
  constructor
  · intro h
    rcases Nat.lt_trichotomy i j with hij | hij | hij
    · exact absurd h (Nat.ne_of_lt (placeAmong_lt ha hpa hij))
    · exact hij
    · exact absurd h (Nat.ne_of_gt (placeAmong_lt hb hpb hij))
  · rintro rfl
    rfl

/-- A change of one member stays in its place. -/
theorem filter_modify (h : ∀ a, p (f a) = p a) (ha : l[i]? = some a) (hp : p a) :
    (l.modify i f).filter p = (l.filter p).modify (placeAmong p l i) f := by
  unfold placeAmong
  induction l generalizing i with
  | nil => simp at ha
  | cons b l ih =>
    cases i with
    | zero =>
      obtain rfl : b = a := by simpa using ha
      simp [h, hp]
    | succ i =>
      have hrest := ih (by simpa using ha)
      by_cases hb : p b
      · simp [hb, hrest]
      · simp [hb, hrest]

/-- A change of a member that is left out shows nowhere. -/
theorem filter_modify_of_not (h : ∀ a, p (f a) = p a) (ha : l[i]? = some a) (hp : ¬ p a) :
    (l.modify i f).filter p = l.filter p := by
  induction l generalizing i with
  | nil => simp at ha
  | cons b l ih =>
    cases i with
    | zero =>
      obtain rfl : b = a := by simpa using ha
      simp [h, hp]
    | succ i =>
      have hrest := ih (by simpa using ha)
      simp [List.filter_cons, hrest]

theorem map_modify_comm {β : Type} {g : α → β} {f' : β → β} (h : ∀ a, g (f a) = f' (g a))
    (l : List α) (i : Nat) : (l.modify i f).map g = (l.map g).modify i f' := by
  induction l generalizing i with
  | nil => simp
  | cons b l ih =>
    cases i with
    | zero => simp [h]
    | succ i => simp [ih]

end Lists

/-! Renumbering. -/

def Load.renumber {κ ν : Type} (f : Nat → Nat) (load : Load κ ν) : Load κ ν :=
  { load with predecessor := load.predecessor.map f }

def PendingLoad.renumber (f : Nat → Nat) (slot : PendingLoad) : PendingLoad :=
  { slot with generation := f slot.generation }

def Decision.renumber {ν : Type} (f : Nat → Nat) : Decision ν → Decision ν
  | .miss g => .miss (f g)
  | d => d

namespace Cache

variable {κ ν : Type} {c d : Cache κ ν} {g j : Nat} {k k' : κ}

theorem exists_load (h : c.keyOf g = some k) : ∃ load, c.loads[g]? = some load ∧ load.key = k :=
  Option.map_eq_some_iff.mp h

variable [DecidableEq κ] {p : Option Nat} {load : Load κ ν} {time : ClockReading}
  {result : LoadResult ν}

def IsOf (k : κ) (load : Load κ ν) : Bool := load.key = k

/-- The place of a load among the loads of a key. -/
def rank (c : Cache κ ν) (k : κ) (g : Nat) : Nat := placeAmong (IsOf k) c.loads g

/-- Slots and predecessors belong to their keys. -/
structure WithinKeys (c : Cache κ ν) : Prop where
  slot : ∀ k slot, c.pending.get? k = some slot → c.keyOf slot.generation = some k
  predecessor : ∀ g k p, c.keyOf g = some k → c.predecessorOf g = some (some p) →
    c.keyOf p = some k

/-- One cache holds of a key what the other one holds, and has no other loads. -/
structure Restricts (k : κ) (c d : Cache κ ν) : Prop where
  policy : d.policy = c.policy
  entry : d.peek k = c.peek k
  slot : d.pending.get? k = (c.pending.get? k).map (PendingLoad.renumber (c.rank k))
  loads : d.loads = (c.loads.filter (IsOf k)).map (Load.renumber (c.rank k))

theorem restricts_empty (k : κ) (policy : FreshnessPolicy) :
    Restricts k (empty policy : Cache κ ν) (empty policy) := ⟨rfl, rfl, rfl, rfl⟩

/-! Places of loads. -/

theorem isOf_setPhase (k : κ) (phase : LoadPhase ν) (load : Load κ ν) :
    IsOf k { load with phase := phase } = IsOf k load := rfl

@[simp] theorem rank_setPhase (c : Cache κ ν) (k : κ) (g : Nat) (phase : LoadPhase ν) :
    (c.setPhase g phase).rank k = c.rank k :=
  funext fun _ => placeAmong_modify (isOf_setPhase k phase) _ _ _

@[simp] theorem rank_begin (c : Cache κ ν) (k : κ) (g : Nat) : (c.begin g).rank k = c.rank k :=
  rank_setPhase c k g _

@[simp] theorem rank_complete (c : Cache κ ν) (k k' : κ) (g : Nat) (time : ClockReading)
    (result : LoadResult ν) : (c.complete k' g time result).rank k = c.rank k :=
  rank_setPhase c k g _

theorem rank_register (k' : κ) (p : Option Nat) (h : j ≤ c.loads.length) :
    (c.register k' p).rank k j = c.rank k j := placeAmong_append_of_le h _

theorem rank_lt (hk : c.keyOf g = some k) (h : g < j) : c.rank k g < c.rank k j := by
  obtain ⟨load, hl, hload⟩ := exists_load hk
  exact placeAmong_lt hl (by simp [IsOf, hload]) h

theorem rank_inj (hg : c.keyOf g = some k) (hj : c.keyOf j = some k) :
    c.rank k g = c.rank k j ↔ g = j := by
  obtain ⟨load, hl, hload⟩ := exists_load hg
  obtain ⟨load', hl', hload'⟩ := exists_load hj
  exact placeAmong_inj hl (by simp [IsOf, hload]) hl' (by simp [IsOf, hload'])

theorem WithinKeys.of_load (h : c.WithinKeys) {q : Nat} (hl : c.loads[g]? = some load)
    (hq : load.predecessor = some q) : c.keyOf q = some load.key := by
  obtain ⟨hk, hp, -⟩ := lookups hl
  exact h.predecessor g load.key q hk (hp.trans (congrArg some hq))

/-- A new load renumbers none of those that are there. -/
theorem WithinKeys.renumbered (h : c.WithinKeys) (k k' : κ) (p : Option Nat) :
    (c.loads.filter (IsOf k)).map (Load.renumber ((c.register k' p).rank k)) =
      (c.loads.filter (IsOf k)).map (Load.renumber (c.rank k)) := by
  refine List.map_congr_left fun load hmem => ?_
  obtain ⟨g, hl⟩ := List.getElem?_of_mem (List.mem_filter.mp hmem).1
  have hp : load.predecessor.map ((c.register k' p).rank k) =
      load.predecessor.map (c.rank k) := by
    refine Option.map_congr fun q hq => ?_
    exact rank_register k' p (Nat.le_of_lt (lt_length_of_keyOf (h.of_load hl hq)))
  simp only [Load.renumber, hp]

theorem WithinKeys.renumbered_slot (h : c.WithinKeys) (k k' : κ) (p : Option Nat) :
    (c.pending.get? k).map (PendingLoad.renumber ((c.register k' p).rank k)) =
      (c.pending.get? k).map (PendingLoad.renumber (c.rank k)) := by
  refine Option.map_congr fun slot hs => ?_
  have hlt := lt_length_of_keyOf (h.slot k slot hs)
  simp only [PendingLoad.renumber, rank_register k' p (Nat.le_of_lt hlt)]

namespace Restricts

variable (h : Restricts k c d)
include h

/-! What the two caches say of one load. -/

theorem length : d.loads.length = c.rank k c.loads.length := by
  rw [h.loads, List.length_map, rank, placeAmong_length]

theorem getElem?_rank (hl : c.loads[g]? = some load) (hk : load.key = k) :
    d.loads[c.rank k g]? = some (load.renumber (c.rank k)) := by
  rw [h.loads, List.getElem?_map, rank, getElem?_placeAmong hl (by simp [IsOf, hk])]
  rfl

theorem keyOf (hk : c.keyOf g = some k) : d.keyOf (c.rank k g) = some k := by
  obtain ⟨load, hl, hload⟩ := exists_load hk
  rw [(lookups (h.getElem?_rank hl hload)).1, ← hload]
  rfl

theorem phaseOf (hk : c.keyOf g = some k) : d.phaseOf (c.rank k g) = c.phaseOf g := by
  obtain ⟨load, hl, hload⟩ := exists_load hk
  rw [(lookups (h.getElem?_rank hl hload)).2.2, (lookups hl).2.2]
  rfl

theorem isReady (hw : c.WithinKeys) (hl : c.loads[g]? = some load) (hk : load.key = k) :
    d.isReady (load.renumber (c.rank k)) = c.isReady load := by
  rw [Bool.eq_iff_iff, isReady_iff, isReady_iff]
  cases hp : load.predecessor with
  | none => simp [Load.renumber, hp]
  | some q =>
    have hq := hw.of_load hl hp
    rw [hk] at hq
    simp [Load.renumber, hp, Finished, h.phaseOf hq]

theorem ownsSlot (hw : c.WithinKeys) (hk : c.keyOf g = some k) :
    d.ownsSlot k (c.rank k g) = c.ownsSlot k g := by
  unfold Cache.ownsSlot
  rw [h.slot]
  cases hs : c.pending.get? k with
  | none => rfl
  | some slot =>
    rw [Bool.eq_iff_iff]
    simp [PendingLoad.renumber, rank_inj (hw.slot k slot hs) hk]

theorem isCurrent (hw : c.WithinKeys) (hk : c.keyOf g = some k) :
    d.isCurrent k (c.rank k g) = c.isCurrent k g := by
  unfold Cache.isCurrent
  rw [h.slot]
  cases hs : c.pending.get? k with
  | none => rfl
  | some slot =>
    rw [Bool.eq_iff_iff]
    simp [PendingLoad.renumber, rank_inj (hw.slot k slot hs) hk]

theorem entryOf : d.entryOf k time result = c.entryOf k time result := by
  have he : d.entries.get? k = c.entries.get? k := h.entry
  unfold Cache.entryOf
  rw [he, h.policy]

theorem isLoading : d.isLoading k = c.isLoading k := by
  simp [Cache.isLoading, Table.contains, h.slot]

/-! Operations on the key. -/

theorem counters (x y : Counters) : Restricts k { c with counters := x } { d with counters := y } :=
  ⟨h.policy, h.entry, h.slot, h.loads⟩

theorem loads_setPhase (hk : c.keyOf g = some k) (phase : LoadPhase ν) :
    (d.setPhase (c.rank k g) phase).loads =
      ((c.setPhase g phase).loads.filter (IsOf k)).map (Load.renumber (c.rank k)) := by
  obtain ⟨load, hl, hload⟩ := exists_load hk
  have hof : IsOf k load = true := by simp [IsOf, hload]
  simp only [setPhase, h.loads]
  rw [filter_modify (isOf_setPhase k phase) hl hof]
  have hcomm : ∀ load : Load κ ν, ({ load with phase := phase } : Load κ ν).renumber (c.rank k) =
      { load.renumber (c.rank k) with phase := phase } := fun _ => rfl
  exact (map_modify_comm hcomm _ _).symm

theorem begin (hk : c.keyOf g = some k) : Restricts k (c.begin g) (d.begin (c.rank k g)) where
  policy := h.policy
  entry := h.entry
  slot := by
    rw [rank_begin]
    exact h.slot
  loads := by
    rw [rank_begin]
    exact h.loads_setPhase hk .running

theorem complete (hw : c.WithinKeys) (hk : c.keyOf g = some k) :
    Restricts k (c.complete k g time result) (d.complete k (c.rank k g) time result) where
  policy := h.policy
  entry := by simp only [peek_complete, h.isCurrent hw hk, h.entryOf, h.entry]
  slot := by
    rw [pending_complete, pending_complete, h.ownsSlot hw hk, rank_complete, h.slot]
    split <;> rfl
  loads := by
    change (d.setPhase _ (.finished (d.entryOf k time result))).loads = _
    rw [rank_complete, h.entryOf]
    exact h.loads_setPhase hk (.finished (c.entryOf k time result))

theorem register (hw : c.WithinKeys) (hp : ∀ q, p = some q → c.keyOf q = some k) :
    Restricts k (c.register k p) (d.register k (p.map (c.rank k))) where
  policy := h.policy
  entry := h.entry
  slot := by
    simp [Cache.register, PendingLoad.renumber, h.length]
    exact (rank_register k p (Nat.le_refl _)).symm
  loads := by
    have hpred : p.map ((c.register k p).rank k) = p.map (c.rank k) := by
      refine Option.map_congr fun q hq => ?_
      exact rank_register k p (Nat.le_of_lt (lt_length_of_keyOf (hp q hq)))
    change d.loads ++ _ = ((c.loads ++ _).filter (IsOf k)).map _
    rw [List.filter_append, List.map_append, hw.renumbered, h.loads]
    simp [IsOf, Load.renumber, hpred]

theorem invalidate : Restricts k (c.invalidate k) (d.invalidate k) where
  policy := h.policy
  entry := by simp
  slot := by
    rw [pending_invalidate, pending_invalidate, if_pos rfl, if_pos rfl, h.slot, Option.map_map,
      Option.map_map]
    rfl
  loads := h.loads

theorem invalidateAll : Restricts k c.invalidateAll d.invalidateAll where
  policy := h.policy
  entry := by simp
  slot := by
    rw [pending_invalidateAll, pending_invalidateAll, h.slot, Option.map_map, Option.map_map]
    rfl
  loads := h.loads

theorem joinOrStart (hw : c.WithinKeys) :
    Restricts k (c.joinOrStart k).1 (d.joinOrStart k).1 ∧
      (d.joinOrStart k).2 =
        ((c.joinOrStart k).1.rank k (c.joinOrStart k).2.1, (c.joinOrStart k).2.2) := by
  have hnew (p : Option Nat) : d.loads.length = (c.register k p).rank k c.loads.length :=
    h.length.trans (rank_register k p (Nat.le_refl _)).symm
  unfold Cache.joinOrStart
  rw [h.slot]
  cases hs : c.pending.get? k with
  | none => exact ⟨h.register hw nofun, Prod.ext (hnew none) rfl⟩
  | some slot =>
    obtain ⟨g, invalidated⟩ := slot
    cases invalidated with
    | false => exact ⟨h, rfl⟩
    | true =>
      refine ⟨h.register hw ?_, Prod.ext (hnew (some g)) rfl⟩
      rintro q ⟨⟩
      exact hw.slot k _ hs

theorem request (hw : c.WithinKeys) :
    Restricts k (c.request k time).1 (d.request k time).1 ∧
      (d.request k time).2.1 = (c.request k time).2.1.renumber ((c.request k time).1.rank k) := by
  have he : d.entries.get? k = c.entries.get? k := h.entry
  obtain ⟨hjoined, hload⟩ := h.joinOrStart hw
  cases hc : c.entries.get? k with
  | none =>
    simp only [Cache.request, he, hc, hload]
    exact ⟨hjoined.counters _ _, rfl⟩
  | some e =>
    have hsame : e.freshness d.policy time = e.freshness c.policy time := by rw [h.policy]
    cases hf : e.freshness c.policy time with
    | fresh =>
      simp only [Cache.request, he, hsame, hc, hf]
      exact ⟨h.counters _ _, rfl⟩
    | refreshAhead =>
      simp only [Cache.request, he, hsame, hc, hf]
      exact ⟨hjoined.counters _ _, rfl⟩
    | expired =>
      simp only [Cache.request, he, hsame, hc, hf, hload]
      exact ⟨hjoined.counters _ _, rfl⟩

/-! Operations on another key. -/

theorem setPhase_other (hk : c.keyOf g = some k') (hne : k' ≠ k) (phase : LoadPhase ν) :
    ((c.setPhase g phase).loads.filter (IsOf k)).map (Load.renumber (c.rank k)) = d.loads := by
  obtain ⟨load, hl, hload⟩ := exists_load hk
  have hof : ¬ IsOf k load = true := by simp [IsOf, hload, hne]
  rw [Cache.setPhase, filter_modify_of_not (isOf_setPhase k phase) hl hof, h.loads]

theorem begin_other (hk : c.keyOf g = some k') (hne : k' ≠ k) : Restricts k (c.begin g) d where
  policy := h.policy
  entry := h.entry
  slot := by
    rw [rank_begin]
    exact h.slot
  loads := by
    rw [rank_begin]
    exact (h.setPhase_other hk hne .running).symm

theorem complete_other (hk : c.keyOf g = some k') (hne : k' ≠ k) :
    Restricts k (c.complete k' g time result) d where
  policy := h.policy
  entry := by
    rw [peek_complete, if_neg fun hcur => hne hcur.1.symm]
    exact h.entry
  slot := by
    rw [rank_complete, pending_complete, if_neg fun hown => hne hown.1.symm]
    exact h.slot
  loads := by
    rw [rank_complete]
    exact (h.setPhase_other hk hne (.finished (c.entryOf k' time result))).symm

theorem register_other (hw : c.WithinKeys) (hne : k' ≠ k) (p : Option Nat) :
    Restricts k (c.register k' p) d where
  policy := h.policy
  entry := h.entry
  slot := by
    rw [show (c.register k' p).pending.get? k = c.pending.get? k by
      simp [Cache.register, Ne.symm hne], hw.renumbered_slot]
    exact h.slot
  loads := by
    have hout : (c.register k' p).loads.filter (IsOf k) = c.loads.filter (IsOf k) := by
      simp [Cache.register, IsOf, hne]
    rw [hout, hw.renumbered, h.loads]

theorem request_other (hw : c.WithinKeys) (hne : k' ≠ k) : Restricts k (c.request k' time).1 d := by
  have hr := registering c k' time
  generalize (c.request k' time).1 = c' at hr ⊢
  generalize (c.request k' time).2.2 = started at hr
  cases hr with
  | nothing => exact h.counters _ d.counters
  | load => exact (h.register_other hw hne _).counters _ d.counters

theorem invalidate_other (hne : k' ≠ k) : Restricts k (c.invalidate k') d where
  policy := h.policy
  entry := by
    rw [peek_invalidate, if_neg (Ne.symm hne)]
    exact h.entry
  slot := by
    rw [pending_invalidate, if_neg (Ne.symm hne)]
    exact h.slot
  loads := h.loads

end Restricts

theorem rank_request (k' : κ) (time : ClockReading) (h : j < c.loads.length) :
    (c.request k' time).1.rank k j = c.rank k j := by
  have hr := registering c k' time
  generalize (c.request k' time).1 = c' at hr ⊢
  generalize (c.request k' time).2.2 = started at hr
  cases hr with
  | nothing => rfl
  | load => exact rank_register k' _ (Nat.le_of_lt h)

end Cache

end RowReplay
