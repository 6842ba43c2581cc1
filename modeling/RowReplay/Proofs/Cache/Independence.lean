import Mathlib.Data.List.Basic
import Mathlib.Tactic.IntervalCases
import RowReplay.Proofs.Cache.Restriction

/-!
Keys do not interfere. A run in which everything that concerns other keys is left out shows the same
of its key at every step, up to the numbers of loads and calls.
-/
namespace RowReplay.Cache

variable {κ ν : Type} [DecidableEq κ] {k k' : κ} {time : ClockReading} {result : LoadResult ν}

/-! The callers of one key. -/

def Standing.renumber (f : Nat → Nat) : Standing κ ν → Standing κ ν
  | .waiting g => .waiting (f g)
  | standing => standing

def Caller.renumber (f : Nat → Nat) (caller : Caller κ ν) : Caller κ ν :=
  { caller with standing := caller.standing.renumber f }

def Caller.IsOf (k : κ) (caller : Caller κ ν) : Bool := caller.key = k

namespace State

variable {s s' t : State κ ν} {a : Action κ ν} {i : Nat}

/-- The place of a caller among the callers of a key. -/
def callerRank (s : State κ ν) (k : κ) (i : Nat) : Nat := placeAmong (Caller.IsOf k) s.callers i

structure WithinKeys (s : State κ ν) : Prop where
  cache : s.cache.WithinKeys
  waits : ∀ (i : Nat) (k : κ) (g : Nat), s.callers[i]? = some ⟨k, .waiting g⟩ →
    s.cache.keyOf g = some k

theorem isOf_setStanding (k : κ) (standing : Standing κ ν) (caller : Caller κ ν) :
    Caller.IsOf k { caller with standing } = Caller.IsOf k caller := rfl

/-- One state holds of a key what the other one holds, and nothing else. Its clock may be behind:
nobody has read it where another key was concerned. -/
structure Restricts (k : κ) (s t : State κ ν) : Prop where
  cache : s.cache.Restricts k t.cache
  callers : t.callers = (s.callers.filter (Caller.IsOf k)).map (Caller.renumber (s.cache.rank k))
  clock : t.clock.elapsed ≤ s.clock.elapsed

end State

/-- What an action does where there is only one key; nothing if it concerns another one. -/
def Action.only (k : κ) (s : State κ ν) : Action κ ν → Option (Action κ ν)
  | .get k' time => if k' = k then some (.get k time) else none
  | .cancel i =>
    if s.callers[i]?.map Caller.key = some k then some (.cancel (s.callerRank k i)) else none
  | .answer i =>
    if s.callers[i]?.map Caller.key = some k then some (.answer (s.callerRank k i)) else none
  | .begin g => if s.cache.keyOf g = some k then some (.begin (s.cache.rank k g)) else none
  | .finish g time result =>
    if s.cache.keyOf g = some k then some (.finish (s.cache.rank k g) time result) else none
  | .invalidate k' => if k' = k then some (.invalidate k) else none
  | .invalidateAll => some .invalidateAll

namespace State

variable {s s' t : State κ ν} {a : Action κ ν} {i : Nat} {standing : Standing κ ν}

theorem restricts_initial (k : κ) (policy : FreshnessPolicy) :
    Restricts k (initial policy : State κ ν) (initial policy) :=
  ⟨restricts_empty k policy, rfl, Nat.le_refl _⟩

/-- Who waits keeps its load's number as long as the earlier loads do. -/
theorem WithinKeys.renumbered (hw : s.WithinKeys) {f : Nat → Nat}
    (hf : ∀ g, g < s.cache.loads.length → f g = s.cache.rank k g) :
    (s.callers.filter (Caller.IsOf k)).map (Caller.renumber f) =
      (s.callers.filter (Caller.IsOf k)).map (Caller.renumber (s.cache.rank k)) := by
  refine List.map_congr_left fun caller hmem => ?_
  obtain ⟨i, hc⟩ := List.getElem?_of_mem (List.mem_filter.mp hmem).1
  obtain ⟨k', standing⟩ := caller
  cases standing with
  | waiting g =>
    have hlt := lt_length_of_keyOf (hw.waits i k' g hc)
    simp only [Caller.renumber, Standing.renumber, hf g hlt]
  | answered | cancelled => rfl

namespace Restricts

variable (h : Restricts k s t)
include h

theorem getElem?_callerRank {standing : Standing κ ν} (hc : s.callers[i]? = some ⟨k, standing⟩) :
    t.callers[s.callerRank k i]? = some ⟨k, standing.renumber (s.cache.rank k)⟩ := by
  rw [h.callers, List.getElem?_map, callerRank, getElem?_placeAmong hc (by simp [Caller.IsOf])]
  rfl

theorem setStanding {old : Standing κ ν} (hc : s.callers[i]? = some ⟨k, old⟩)
    (standing : Standing κ ν) (hs : standing.renumber (s.cache.rank k) = standing) :
    Restricts k (s.setStanding i standing) (t.setStanding (s.callerRank k i) standing) where
  cache := h.cache
  callers := by
    have hof : Caller.IsOf k (⟨k, old⟩ : Caller κ ν) = true := by simp [Caller.IsOf]
    have hcomm : ∀ caller : Caller κ ν,
        ({ caller with standing } : Caller κ ν).renumber (s.cache.rank k) =
          { caller.renumber (s.cache.rank k) with standing } := by
      intro caller
      simp [Caller.renumber, hs]
    simp only [State.setStanding, h.callers]
    rw [filter_modify (isOf_setStanding k standing) hc hof]
    exact (map_modify_comm hcomm _ _).symm
  clock := h.clock

theorem setStanding_other {old : Standing κ ν} (hc : s.callers[i]? = some ⟨k', old⟩)
    (hne : k' ≠ k) (standing : Standing κ ν) : Restricts k (s.setStanding i standing) t where
  cache := h.cache
  callers := by
    have hof : ¬ Caller.IsOf k (⟨k', old⟩ : Caller κ ν) = true := by simp [Caller.IsOf, hne]
    simp only [State.setStanding]
    rw [filter_modify_of_not (isOf_setStanding k standing) hc hof, h.callers]
  clock := h.clock

theorem ask (hw : s.WithinKeys) : Restricts k (s.ask k time) (t.ask k time) := by
  have ⟨hcache, hdecided⟩ : Cache.Restricts k (s.cache.request k time).1 _ ∧ _ :=
    h.cache.request hw.cache
  refine ⟨hcache, ?_, Nat.le_refl _⟩
  have hlast : standingOf k (t.cache.request k time).2.1 =
      (standingOf k (s.cache.request k time).2.1).renumber ((s.cache.request k time).1.rank k) := by
    rw [hdecided]
    cases (s.cache.request k time).2.1 <;> rfl
  simp only [State.ask, List.filter_append, List.map_append]
  rw [hw.renumbered fun g hg => rank_request k time hg, h.callers, hlast]
  simp [Caller.IsOf, Caller.renumber]

theorem ask_other (hw : s.WithinKeys) (ht : s.clock.elapsed ≤ time.elapsed)
    (hne : k' ≠ k) :
    Restricts k (s.ask k' time) t := by
  refine ⟨h.cache.request_other hw.cache hne, ?_, Nat.le_trans h.clock ht⟩
  simp only [State.ask, List.filter_append, List.map_append]
  rw [hw.renumbered fun g hg => rank_request k' time hg, h.callers]
  simp [Caller.IsOf, hne]

/-- Every step is one on the smaller side too, or leaves the smaller side as it is. -/
theorem step (hw : s.WithinKeys) (hs : Step s a s') :
    (∃ b t', a.only k s = some b ∧ Step t b t' ∧ Restricts k s' t') ∨
      a.only k s = none ∧ Restricts k s' t := by
  cases hs with
  | @get k' time ht =>
    by_cases hk : k' = k
    · subst k'
      exact Or.inl ⟨_, _, if_pos rfl, .get (Nat.le_trans h.clock ht), h.ask hw⟩
    · exact Or.inr ⟨if_neg hk, h.ask_other hw ht hk⟩
  | @cancel i g k' hc =>
    by_cases hk : k' = k
    · subst k'
      exact Or.inl ⟨_, _, if_pos (by simp [hc]), .cancel (h.getElem?_callerRank hc),
        h.setStanding hc _ rfl⟩
    · exact Or.inr ⟨if_neg (by simpa [hc] using hk), h.setStanding_other hc hk _⟩
  | @answer i g k' entry hc hp =>
    by_cases hk : k' = k
    · subst k'
      refine Or.inl ⟨_, _, if_pos (by simp [hc]), .answer (h.getElem?_callerRank hc) ?_,
        h.setStanding hc _ rfl⟩
      rw [h.cache.phaseOf (hw.waits i _ g hc), hp]
    · exact Or.inr ⟨if_neg (by simpa [hc] using hk), h.setStanding_other hc hk _⟩
  | @begin g load hl hq hr =>
    have hkey := (lookups hl).1
    by_cases hk : load.key = k
    · rw [hk] at hkey
      refine Or.inl ⟨_, _, if_pos hkey, .begin (h.cache.getElem?_rank hl hk) hq ?_,
        h.cache.begin hkey, ?_, h.clock⟩
      · rw [h.cache.isReady hw.cache hl hk, hr]
      · simpa using h.callers
    · refine Or.inr ⟨if_neg (by simpa [hkey] using hk), h.cache.begin_other hkey hk, ?_, h.clock⟩
      simpa using h.callers
  | @finish g load time result hl hr ht =>
    have hkey := (lookups hl).1
    by_cases hk : load.key = k
    · subst k
      refine Or.inl ⟨_, _, if_pos hkey,
        .finish (h.cache.getElem?_rank hl rfl) hr (Nat.le_trans h.clock ht),
        h.cache.complete hw.cache hkey, ?_, Nat.le_refl _⟩
      simpa [State.complete] using h.callers
    · refine Or.inr ⟨if_neg (by simpa [hkey] using hk), h.cache.complete_other hkey hk, ?_,
        Nat.le_trans h.clock ht⟩
      simpa [State.complete] using h.callers
  | @invalidate k' =>
    by_cases hk : k' = k
    · subst k'
      exact Or.inl ⟨_, _, if_pos rfl, .invalidate, h.cache.invalidate, h.callers, h.clock⟩
    · exact Or.inr ⟨if_neg hk, h.cache.invalidate_other hk, h.callers, h.clock⟩
  | invalidateAll =>
    exact Or.inl ⟨_, _, rfl, .invalidateAll, h.cache.invalidateAll, h.callers, h.clock⟩

end Restricts

end State

namespace Execution

variable {policy : FreshnessPolicy} {E : Execution κ ν policy} {c f g g' i m n : Nat}

theorem withinKeys (E : Execution κ ν policy) (n : Nat) : (E.state n).WithinKeys where
  cache :=
    { slot := fun k slot hs => ((E.chained n).slot k slot.generation slot.invalidated hs).1
      predecessor := fun _ _ _ => predecessor_key }
  waits := fun _ _ _ => Waits.key

/-! Loader calls. -/

/-- The load of the key that the loader is called for at a step. -/
def call? (E : Execution κ ν policy) (k : κ) (n : Nat) : Option Nat :=
  match E.event n with
  | some (.begin g) => if (E.state n).cache.keyOf g = some k then some g else none
  | _ => none

/-- The loads of the key that the loader has been called for, in the order of the calls. -/
def calls (E : Execution κ ν policy) (k : κ) (n : Nat) : List Nat :=
  (List.range n).filterMap (E.call? k)

/-- What the loader answers depends on nothing but the key and the number of its earlier calls for that
key. -/
def Follows (E : Execution κ ν policy) (loader : κ → Nat → LoadResult ν) : Prop :=
  ∀ k g b s result f, E.Begins k g b → E.Finishes k g s result f →
    result = loader k (E.calls k b).length

theorem call?_eq_some_iff : E.call? k n = some g ↔ E.Begins k g n := by
  unfold call? Begins
  cases he : E.event n with
  | none => simp
  | some a =>
    cases a with
    | begin g' =>
      simp only [Option.ite_none_right_eq_some, Option.some.injEq, Action.begin.injEq]
      constructor
      · rintro ⟨hk, rfl⟩
        exact ⟨rfl, hk⟩
      · rintro ⟨rfl, hk⟩
        exact ⟨hk, rfl⟩
    | _ => simp

/-- A registered load keeps its place among the loads of a key. -/
theorem rank_mono (hk : (E.state m).cache.keyOf g = some k') (h : m ≤ n) :
    (E.state n).cache.rank k g = (E.state m).cache.rank k g := by
  induction h with
  | refl => rfl
  | @step n hmn ih =>
    rw [← ih]
    cases he : E.event n with
    | none => rw [E.pad n he]
    | some a =>
      have hs := E.step n a he
      generalize E.state (n + 1) = t at hs ⊢
      cases hs with
      | get => exact rank_request _ _ (lt_length_of_keyOf (keyOf_mono hk hmn))
      | begin => simp
      | finish => simp [State.complete]
      | _ => rfl

/-! The run of one key. -/

/-- The states of the run without what concerns other keys. -/
def onlyState (E : Execution κ ν policy) (k : κ) : Nat → State κ ν
  | 0 => .initial policy
  | n + 1 =>
    match (E.event n).bind (Action.only k (E.state n)) with
    | some a => (next? (E.onlyState k n) a).getD (E.onlyState k n)
    | none => E.onlyState k n

theorem onlyState_succ {a : Action κ ν} (h : State.Restricts k (E.state n) (E.onlyState k n))
    (he : E.event n = some a) :
    State.Restricts k (E.state (n + 1)) (E.onlyState k (n + 1)) ∧
      ∀ b, a.only k (E.state n) = some b →
        Step (E.onlyState k n) b (E.onlyState k (n + 1)) := by
  rcases h.step (E.withinKeys n) (E.step n a he) with ⟨b, t, hb, hs, hsucc⟩ | ⟨hb, hsucc⟩
  · have ht : E.onlyState k (n + 1) = t := by
      simp [onlyState, he, hb, next?_eq_some_iff.mpr hs]
    rw [ht]
    refine ⟨hsucc, ?_⟩
    intro b' hb'
    obtain rfl : b = b' := Option.some.inj (hb.symm.trans hb')
    exact hs
  · have ht : E.onlyState k (n + 1) = E.onlyState k n := by simp [onlyState, he, hb]
    rw [ht]
    exact ⟨hsucc, fun b hb' => by simp [hb] at hb'⟩

theorem restricts (E : Execution κ ν policy) (k : κ) (n : Nat) :
    State.Restricts k (E.state n) (E.onlyState k n) := by
  induction n with
  | zero =>
    rw [E.initial]
    exact State.restricts_initial k policy
  | succ n ih =>
    cases he : E.event n with
    | none =>
      rw [E.pad n he, show E.onlyState k (n + 1) = E.onlyState k n by simp [onlyState, he]]
      exact ih
    | some a => exact (onlyState_succ ih he).1

/-- The run without the calls, invalidations and loads of other keys. Everything else happens at the
same steps and times and with the same results of the loader. -/
def only (E : Execution κ ν policy) (k : κ) : Execution κ ν policy where
  state := E.onlyState k
  event n := (E.event n).bind (Action.only k (E.state n))
  initial := rfl
  pad n h := by simp [onlyState, h]
  step n b hb := by
    obtain ⟨a, he, hb⟩ := Option.bind_eq_some_iff.mp hb
    exact (onlyState_succ (E.restricts k n) he).2 b hb

theorem begins_only : (E.only k).Begins k i n ↔ ∃ g, E.Begins k g n ∧ (E.state n).cache.rank k g = i := by
  constructor
  · rintro ⟨he, -⟩
    obtain ⟨a, ha, hb⟩ := Option.bind_eq_some_iff.mp he
    cases a with
    | begin g =>
      obtain ⟨hk, hi⟩ := by simpa [Action.only] using hb
      exact ⟨g, ⟨ha, hk⟩, hi⟩
    | _ => simp [Action.only] at hb
  · rintro ⟨g, ⟨he, hk⟩, rfl⟩
    exact ⟨by simp [only, he, Action.only, hk], (E.restricts k n).cache.keyOf hk⟩

theorem finishes_only {s : ClockReading} : (E.only k).Finishes k i s result n ↔
    ∃ g, E.Finishes k g s result n ∧ (E.state n).cache.rank k g = i := by
  constructor
  · rintro ⟨he, -⟩
    obtain ⟨a, ha, hb⟩ := Option.bind_eq_some_iff.mp he
    cases a with
    | finish g time result =>
      obtain ⟨hk, rfl, rfl, rfl⟩ := by simpa [Action.only] using hb
      exact ⟨g, ⟨ha, hk⟩, rfl⟩
    | _ => simp [Action.only] at hb
  · rintro ⟨g, ⟨he, hk⟩, rfl⟩
    exact ⟨by simp [only, he, Action.only, hk], (E.restricts k n).cache.keyOf hk⟩

theorem call?_only (E : Execution κ ν policy) (k : κ) (n : Nat) :
    (E.only k).call? k n = (E.call? k n).map ((E.state n).cache.rank k) := by
  apply Option.ext
  intro i
  rw [call?_eq_some_iff, begins_only, Option.map_eq_some_iff]
  simp only [call?_eq_some_iff]

theorem calls_only (E : Execution κ ν policy) (k : κ) (n : Nat) :
    (E.only k).calls k n = (E.calls k n).map ((E.state n).cache.rank k) := by
  unfold calls
  rw [List.map_filterMap]
  refine List.filterMap_congr fun m hm => ?_
  rw [call?_only]
  refine Option.map_congr fun g hg => ?_
  have hb := call?_eq_some_iff.mp hg
  exact (rank_mono hb.2 (Nat.le_of_lt (List.mem_range.mp hm))).symm

/-- No load of another key is left. -/
theorem key_only (hk : ((E.only k).state n).cache.keyOf i = some k') : k' = k := by
  obtain ⟨load, hl, rfl⟩ := exists_load hk
  have hmem := List.mem_of_getElem? hl
  rw [show ((E.only k).state n).cache.loads = _ from (E.restricts k n).cache.loads,
    List.mem_map] at hmem
  obtain ⟨old, hold, rfl⟩ := hmem
  simpa [IsOf, Load.renumber] using (List.mem_filter.mp hold).2

theorem Follows.only {loader : κ → Nat → LoadResult ν} (h : E.Follows loader) (k : κ) :
    (E.only k).Follows loader := by
  intro k' i b s result f hb hf
  obtain rfl := key_only hb.2
  obtain ⟨g, hbegins, hg⟩ := begins_only.mp hb
  obtain ⟨g', hfinishes, hg'⟩ := finishes_only.mp hf
  obtain rfl : g = g' := by
    have hk := keyOf_mono hbegins.2 (Nat.le_max_left b f)
    have hk' := keyOf_mono hfinishes.2 (Nat.le_max_right b f)
    rw [← rank_inj hk hk', rank_mono hbegins.2 (Nat.le_max_left b f),
      rank_mono hfinishes.2 (Nat.le_max_right b f), hg, hg']
  rw [h k' g b s result f hbegins hfinishes, calls_only, List.length_map]

/-- For any interleaving, leaving out the calls, invalidations and load steps of all other keys gives a
run. At every step the key's entry is the same in both runs, the key is loading in both or in neither,
its loads are in the same phases with the same results, the loader has been called for the same of
them in the same order, and its calls wait, or have been answered, just the same. Its loads keep their
order where they are renumbered, and a loader whose answers depend on the key and on how often it has
been called for that key is the same loader in both runs. -/
theorem keys_do_not_interfere (E : Execution κ ν policy) (k : κ) :
    (∀ n, (E.only k).event n = (E.event n).bind (Action.only k (E.state n))) ∧
    (∀ n, ((E.only k).state n).cache.peek k = (E.state n).cache.peek k ∧
      ((E.only k).state n).cache.isLoading k = (E.state n).cache.isLoading k ∧
      ((E.only k).state n).cache.loads =
        ((E.state n).cache.loads.filter (IsOf k)).map (.renumber ((E.state n).cache.rank k)) ∧
      (E.only k).calls k n = (E.calls k n).map ((E.state n).cache.rank k) ∧
      ((E.only k).state n).callers =
        ((E.state n).callers.filter (Caller.IsOf k)).map
          (.renumber ((E.state n).cache.rank k))) ∧
    (∀ n g g', (E.state n).cache.keyOf g = some k → g < g' →
      (E.state n).cache.rank k g < (E.state n).cache.rank k g') ∧
    ∀ loader, E.Follows loader → (E.only k).Follows loader := by
  refine ⟨fun _ => rfl, ?_, ?_, ?_⟩
  · intro n
    have h := E.restricts k n
    exact ⟨h.cache.entry, h.cache.isLoading, h.cache.loads, E.calls_only k n, h.callers⟩
  · intro n g g' hk hlt
    exact rank_lt hk hlt
  · intro loader h
    exact h.only k

/-- Two keys at once: the load of the second one is invalidated while it runs, and another one follows
it; the loads of the first one stand between them. -/
def twoKeys : Execution Nat Nat ⟨⟨10⟩, ⟨5⟩⟩ :=
  .ofActions _
    [.get 0 ⟨0, 0⟩, .get 1 ⟨1, 0⟩, .begin 1, .begin 0, .invalidateAll, .get 0 ⟨2, 0⟩, .get 1 ⟨2, 0⟩,
      .finish 1 ⟨3, 0⟩ (some (.ok 8)), .begin 3, .finish 0 ⟨4, 0⟩ (some (.ok 7)),
      .finish 3 ⟨4, 0⟩ (some (.ok 8)), .answer 1, .answer 3]
    (by decide)

/-- The loads numbered 1 and 3 are the first and the second one of their key, and both calls are told
what they were told beside the other key. -/
theorem keys_do_not_interfere_sample :
    ((twoKeys.only 1).state 13).cache.peek 1 = some (.loaded 8 ⟨4, 0⟩) ∧
      (twoKeys.only 1).calls 1 13 = [0, 1] ∧
      ((twoKeys.only 1).state 13).callers = [⟨1, .answered (.ok 8)⟩, ⟨1, .answered (.ok 8)⟩] ∧
      (twoKeys.state 13).cache.rank 1 1 < (twoKeys.state 13).cache.rank 1 3 ∧
      (twoKeys.only 1).Follows fun k _ => some (.ok (k + 7)) :=
  have hall := keys_do_not_interfere twoKeys 1
  have hlast := hall.2.1 13
  have hfollows : twoKeys.Follows fun k _ => some (.ok (k + 7)) := by
    rintro k g b s result f - ⟨he, hk⟩
    rcases Nat.lt_or_ge f 13 with hf | hf
    · interval_cases f <;> cases he <;> cases hk <;> rfl
    · rw [show twoKeys.event f = none from List.getElem?_eq_none hf] at he
      cases he
  ⟨hlast.1, hlast.2.2.2.1, hlast.2.2.2.2, hall.2.2.1 13 1 3 rfl (by decide), hall.2.2.2 _ hfollows⟩

end Execution

end RowReplay.Cache
