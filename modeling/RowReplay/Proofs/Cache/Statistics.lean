import Mathlib.Data.Set.Card
import RowReplay.Proofs.Cache.Slots

/-!
What the numbers of a snapshot count. Each of them is the size of a set that the history of the run
defines: calls that decided, loads registered or failed, keys with an unfinished load.
-/
namespace RowReplay

/-- What happens to one member at a time, and to each member once, is counted by a number that goes
up just when it happens. -/
theorem encard_happened {α : Type} {happens : α → Nat → Prop} {n : Nat} (count : Nat → Nat)
    (h0 : count 0 = 0) (once : ∀ x m n, happens x m → happens x n → m = n)
    (hs : ∀ n, (∃ x, (∀ y, happens y n ↔ y = x) ∧ count (n + 1) = count n + 1) ∨
      (∀ x, ¬ happens x n) ∧ count (n + 1) = count n) :
    {x | ∃ m, m < n ∧ happens x m}.encard = count n := by
  induction n with
  | zero => simp [h0]
  | succ n ih =>
    simp only [Nat.exists_lt_succ_right]
    rcases hs n with ⟨x, hx, hcount⟩ | ⟨hnone, hcount⟩
    · have hnew : x ∉ {y | ∃ m, m < n ∧ happens y m} := by
        rintro ⟨m, hm, hxm⟩
        exact absurd (once x m n hxm ((hx x).mpr rfl)) (Nat.ne_of_lt hm)
      have hset : {y | (∃ m, m < n ∧ happens y m) ∨ happens y n} =
          insert x {y | ∃ m, m < n ∧ happens y m} := by
        ext y
        simp [hx, or_comm]
      rw [hset, Set.encard_insert_of_notMem hnew, ih, hcount]
      rfl
    · simpa [hnone, hcount] using ih

/-- A table has as many pairs as keys. -/
theorem Table.encard_keys {κ α : Type} [DecidableEq κ] (t : Table κ α) :
    {k | t.contains k = true}.encard = t.size := by
  have hkeys : {k | t.contains k = true} = ↑(t.pairs.map Prod.fst).toFinset := by
    ext k
    rw [List.coe_toFinset, Set.mem_ofPred_eq, Set.mem_ofPred_eq, contains,
      Option.isSome_iff_ne_none, ne_eq, get?_eq_none_iff, Decidable.not_not]
  rw [hkeys, Set.encard_coe_eq_coe_finsetCard, List.toFinset_card_of_nodup t.distinct,
    List.length_map, size]

namespace Cache

variable {κ ν : Type} [DecidableEq κ]

/-- A request is counted by its decision, and so is the load that it registers, if any; one that is
served a fresh entry registers none. -/
inductive Counting (c : Counters) : Decision ν → Option Nat → Counters → Prop
  | hit {e : Entry ν} : Counting c (.hit e) none { c with hits := c.hits + 1 }
  | staleHit {e : Entry ν} {started : Option Nat} :
    Counting c (.staleHit e) started
      { c with
        staleHits := c.staleHits + 1
        loadsStarted := c.loadsStarted + started.toList.length }
  | miss {g : Nat} {started : Option Nat} :
    Counting c (.miss g) started
      { c with
        misses := c.misses + 1
        loadsStarted := c.loadsStarted + started.toList.length }

theorem counting (c : Cache κ ν) (k : κ) (time : ClockReading) :
    Counting c.counters (c.request k time).2.1 (c.request k time).2.2
      (c.request k time).1.counters := by
  have hj := joining c k
  unfold request
  generalize c.joinOrStart k = r at hj ⊢
  cases c.entries.get? k with
  | none => cases hj <;> exact .miss
  | some e =>
    cases hf : e.freshness c.policy time with
    | fresh => simp only [hf]; exact .hit
    | refreshAhead => simp only [hf]; cases hj <;> exact .staleHit
    | expired => simp only [hf]; cases hj <;> exact .miss

/-- Only a failure is counted when a load finishes, whoever owns the slot. -/
theorem counters_complete (c : Cache κ ν) (k : κ) (g : Nat) (time : ClockReading)
    (result : LoadResult ν) :
    (c.complete k g time result).counters =
      match result with
      | some (.error _) => { c.counters with loadFailures := c.counters.loadFailures + 1 }
      | _ => c.counters := by
  cases result with
  | none => rfl
  | some r => cases r <;> rfl

namespace Execution

variable {policy : FreshnessPolicy} {E : Execution κ ν policy} {n : Nat}

/-- What a step counts. -/
inductive Tally (E : Execution κ ν policy) (n : Nat) : Counters → Prop
  | asked {k : κ} {time : ClockReading} {decision : Decision ν} {started : Option Nat}
    {counters : Counters} (he : E.event n = some (.get k time))
    (hr : ((E.state n).cache.request k time).2 = (decision, started))
    (hc : Counting (E.state n).cache.counters decision started counters) : Tally E n counters
  | failed {k : κ} {g : Nat} {time : ClockReading} {error : LoadError}
    (hf : E.Finishes k g time (some (.error error)) n) :
    Tally E n { (E.state n).cache.counters with
      loadFailures := (E.state n).cache.counters.loadFailures + 1 }
  | nothing (ha : ∀ k time, E.event n ≠ some (.get k time))
    (hf : ∀ k g time error, ¬ E.Finishes k g time (some (.error error)) n) :
    Tally E n (E.state n).cache.counters

theorem tally (E : Execution κ ν policy) (n : Nat) :
    E.Tally n (E.state (n + 1)).cache.counters := by
  cases he : E.event n with
  | none =>
    rw [E.pad n he]
    exact .nothing (by simp [he]) (by simp [Finishes, he])
  | some a =>
    have hs := E.step n a he
    generalize E.state (n + 1) = t at hs ⊢
    cases hs with
    | get => exact .asked he rfl (counting ..)
    | @finish g load time result hl =>
      have hf : E.Finishes load.key g time result n := ⟨he, (lookups hl).1⟩
      simp only [State.complete, counters_complete]
      split
      case h_1 => exact .failed hf
      case h_2 hne =>
        refine .nothing (by simp [he]) ?_
        intro k' g' time' error hf'
        exact hne error (hf.same hf').2.2.2
    | _ => exact .nothing (by simp [he]) (by simp [Finishes, he])

/-! The sets that are counted. -/

/-- The steps up to `n` at which a call decided. -/
def decisions (E : Execution κ ν policy) (n : Nat) : Set Nat :=
  {m | m < n ∧ ∃ i k time, E.Asks i k time m}

def registered (E : Execution κ ν policy) (n : Nat) : Set Nat :=
  {g | ∃ m, m < n ∧ ∃ k, E.Registers k g m}

/-- The loads that the loader was called for. -/
def begun (E : Execution κ ν policy) (n : Nat) : Set Nat :=
  {g | ∃ m, m < n ∧ ∃ k, E.Begins k g m}

/-- The loads whose loader returned an error, invalidated and superseded ones included. -/
def failed (E : Execution κ ν policy) (n : Nat) : Set Nat :=
  {g | ∃ m, m < n ∧ ∃ k time error, E.Finishes k g time (some (.error error)) m}

def loadingKeys (E : Execution κ ν policy) (n : Nat) : Set κ := {k | ∃ g, E.Unfinished k g n}

/-- The keys that some load returned a value or an error for. -/
def loadedKeys (E : Execution κ ν policy) (n : Nat) : Set κ :=
  {k | ∃ m g time r, m < n ∧ E.Finishes k g time (some r) m}

theorem counters_zero (E : Execution κ ν policy) : (E.state 0).cache.counters = .zero := by
  rw [E.initial]
  rfl

theorem encard_decisions (E : Execution κ ν policy) (n : Nat) :
    (E.decisions n).encard = ↑((E.state n).cache.counters.hits +
      (E.state n).cache.counters.staleHits + (E.state n).cache.counters.misses) := by
  have hset : E.decisions n =
      {x | ∃ m, m < n ∧ x = m ∧ ∃ k time, E.event m = some (.get k time)} := by
    ext m
    simp [decisions, Asks]
  rw [hset]
  refine encard_happened (fun n => (E.state n).cache.counters.hits +
      (E.state n).cache.counters.staleHits + (E.state n).cache.counters.misses) ?_ ?_ ?_
  · simp [E.counters_zero, Counters.zero]
  · rintro x m n ⟨rfl, -⟩ ⟨rfl, -⟩
    rfl
  · intro n
    have ht := E.tally n
    generalize (E.state (n + 1)).cache.counters = counters at ht ⊢
    cases ht with
    | asked he _ hc =>
      refine Or.inl ⟨n, by simp [he], ?_⟩
      cases hc <;> simp only <;> omega
    | failed hf => exact Or.inr ⟨by simp [hf.1], rfl⟩
    | nothing ha => exact Or.inr ⟨by simp [ha], rfl⟩

theorem encard_registered (E : Execution κ ν policy) (n : Nat) :
    (E.registered n).encard = (E.state n).cache.counters.loadsStarted := by
  refine encard_happened (fun n => (E.state n).cache.counters.loadsStarted) ?_ ?_ ?_
  · simp [E.counters_zero, Counters.zero]
  · rintro g m n ⟨k, hm⟩ ⟨k', hn⟩
    obtain rfl := key_unique (keyOf_succ.mpr (Or.inr hm)) (keyOf_succ.mpr (Or.inr hn))
    exact hm.unique hn
  · intro n
    have ht := E.tally n
    generalize (E.state (n + 1)).cache.counters = counters at ht ⊢
    cases ht with
    | @asked k time _ started _ he hr hc =>
      simp only [registers_iff he, hr]
      cases started with
      | none =>
        refine Or.inr ⟨by simp, ?_⟩
        cases hc <;> rfl
      | some g =>
        refine Or.inl ⟨g, by simp [eq_comm], ?_⟩
        cases hc <;> rfl
    | failed hf => exact Or.inr ⟨by simp [Registers, hf.1], rfl⟩
    | nothing ha => exact Or.inr ⟨by simp [Registers, ha], rfl⟩

theorem encard_failed (E : Execution κ ν policy) (n : Nat) :
    (E.failed n).encard = (E.state n).cache.counters.loadFailures := by
  refine encard_happened (fun n => (E.state n).cache.counters.loadFailures) ?_ ?_ ?_
  · simp [E.counters_zero, Counters.zero]
  · rintro g m n ⟨k, time, error, hm⟩ ⟨k', time', error', hn⟩
    exact (hm.unique hn).1
  · intro n
    have ht := E.tally n
    generalize (E.state (n + 1)).cache.counters = counters at ht ⊢
    cases ht with
    | asked he _ hc =>
      refine Or.inr ⟨by simp [Finishes, he], ?_⟩
      cases hc <;> rfl
    | @failed k g time error hf =>
      refine Or.inl ⟨g, ?_, rfl⟩
      intro g'
      constructor
      · rintro ⟨k', time', error', hf'⟩
        exact (hf'.same hf).2.1
      · rintro rfl
        exact ⟨k, time, error, hf⟩
    | nothing _ hf => exact Or.inr ⟨by simpa using fun g k time error => hf k g time error, rfl⟩

/-- Every load is registered by a call that found its entry stale or none to serve. -/
theorem loadsStarted_le (E : Execution κ ν policy) (n : Nat) :
    (E.state n).cache.counters.loadsStarted ≤
      (E.state n).cache.counters.staleHits + (E.state n).cache.counters.misses := by
  induction n with
  | zero => simp [E.counters_zero, Counters.zero]
  | succ n ih =>
    have ht := E.tally n
    generalize (E.state (n + 1)).cache.counters = counters at ht ⊢
    cases ht with
    | @asked _ _ _ started _ _ _ hc =>
      have hone : started.toList.length ≤ 1 := by cases started <;> simp
      cases hc <;> simp only <;> omega
    | failed => exact ih
    | nothing => exact ih

theorem mem_registered_iff {g : Nat} :
    g ∈ E.registered n ↔ ∃ k, (E.state n).cache.keyOf g = some k := by
  simp only [registered, Set.mem_ofPred_eq, registered_iff]
  exact ⟨fun ⟨m, hm, k, hr⟩ => ⟨k, m, hm, hr⟩, fun ⟨k, m, hm, hr⟩ => ⟨m, hm, k, hr⟩⟩

/-- The loads are numbered without gaps, from zero on. -/
theorem loadsStarted_eq (E : Execution κ ν policy) (n : Nat) :
    (E.state n).cache.counters.loadsStarted = (E.state n).cache.loads.length := by
  have hset : E.registered n = ↑(Finset.range (E.state n).cache.loads.length) := by
    ext g
    rw [mem_registered_iff, Finset.coe_range, Set.mem_Iio]
    exact ⟨fun ⟨k, hk⟩ => lt_length_of_keyOf hk, exists_keyOf_of_lt⟩
  have hcard := E.encard_registered n
  rw [hset, Set.encard_coe_eq_coe_finsetCard, Finset.card_range] at hcard
  exact_mod_cast hcard.symm

theorem begun_subset (E : Execution κ ν policy) (n : Nat) : E.begun n ⊆ E.registered n := by
  rintro g ⟨m, hm, k, hb⟩
  exact mem_registered_iff.mpr ⟨k, keyOf_mono hb.2 (Nat.le_of_lt hm)⟩

/-- A load that has finished was called for. -/
theorem registered_subset (h : ∀ k g, ¬ E.Unfinished k g n) : E.registered n ⊆ E.begun n := by
  intro g hg
  obtain ⟨k, hk⟩ := mem_registered_iff.mp hg
  have hf : (E.state n).cache.Finished g :=
    Classical.not_not.mp fun hf => h k g (unfinished_iff.mpr ⟨hk, hf⟩)
  exact called_iff.mp hf.called

theorem encard_loadingKeys (E : Execution κ ν policy) (n : Nat) :
    (E.loadingKeys n).encard = (E.state n).cache.pending.size := by
  have hset : E.loadingKeys n = {k | (E.state n).cache.pending.contains k = true} := by
    ext k
    exact isLoading_iff.symm
  rw [hset, Table.encard_keys]

/-- What is stored for a key came from a load of the key. -/
theorem size_entries_le (E : Execution κ ν policy) (n : Nat) :
    (E.state n).cache.entries.size ≤ (E.loadedKeys n).encard := by
  rw [← Table.encard_keys]
  apply Set.encard_le_encard
  intro k hk
  obtain ⟨e, he⟩ := Option.isSome_iff_exists.mp hk
  rcases entry_filled he with hv | hv
  · obtain ⟨v, hv⟩ := Option.isSome_iff_exists.mp hv
    obtain ⟨g, f, ⟨hfn, hf, -⟩, -⟩ := value_origin he hv
    exact ⟨f, g, _, _, hfn, hf⟩
  · obtain ⟨error, hv⟩ := Option.isSome_iff_exists.mp hv
    obtain ⟨g, f, time, ⟨hfn, hf, -⟩, -⟩ := failure_origin he hv
    exact ⟨f, g, time, _, hfn, hf⟩

/-- For any interleaving, the snapshot's numbers are those of the history: every decision is one
hit, stale hit or miss; a load is counted once, when it is registered, and its generation is the
count so far; the loader was called for no more loads, and for all of them once none is unfinished;
every error that a loader returned is counted. -/
theorem statistics_balance (E : Execution κ ν policy) (n : Nat) :
    let stats := (E.state n).cache.stats
    (E.decisions n).encard = ↑(stats.hits + stats.staleHits + stats.misses) ∧
    (E.registered n).encard = stats.loadsStarted ∧
    stats.loadsStarted = (E.state n).cache.loads.length ∧
    (∀ k time g, ((E.state n).cache.request k time).2.2 = some g → g = stats.loadsStarted) ∧
    stats.loadsStarted ≤ stats.staleHits + stats.misses ∧
    (E.begun n).encard ≤ stats.loadsStarted ∧
    ((∀ k g, ¬ E.Unfinished k g n) → (E.begun n).encard = stats.loadsStarted) ∧
    (E.failed n).encard = stats.loadFailures ∧
    (E.loadingKeys n).encard = stats.pendingLoads ∧
    stats.entries ≤ (E.loadedKeys n).encard := by
  intro stats
  refine ⟨E.encard_decisions n, E.encard_registered n, E.loadsStarted_eq n, ?_, E.loadsStarted_le n,
    ?_, ?_, E.encard_failed n, E.encard_loadingKeys n, E.size_entries_le n⟩
  · intro k time g hg
    have hr := registering (E.state n).cache k time
    rw [hg] at hr
    generalize ((E.state n).cache.request k time).1 = d at hr
    cases hr
    exact (E.loadsStarted_eq n).symm
  · exact (Set.encard_le_encard (E.begun_subset n)).trans_eq (E.encard_registered n)
  · intro hnone
    rw [(E.begun_subset n).antisymm (registered_subset hnone)]
    exact E.encard_registered n

example : (sample.state 20).cache.stats = ⟨1, 0, 1, 2, 4, 4, 1⟩ := by decide

end Execution
end Cache
end RowReplay
