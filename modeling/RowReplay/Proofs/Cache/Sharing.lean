import RowReplay.Proofs.Cache.Staleness

/-!
Shared loads. A key has at most one live load, which every call that needs one goes with, and all
calls that wait for a load are told the outcome of its own call of the loader.
-/
namespace RowReplay.Cache.Execution

variable {κ ν : Type} [DecidableEq κ] {policy : FreshnessPolicy} {E : Execution κ ν policy}
  {b c f g g' i j m n q : Nat} {k : κ} {time s : ClockReading} {result : LoadResult ν}
  {answer : Except (CacheError κ) ν}

/-! Registration. -/

theorem Live.unique (h : E.Live k g n) (h' : E.Live k g' n) : g = g' := by
  have hs := (live_iff.mp h).symm.trans (live_iff.mp h')
  simpa using hs

/-- No load is registered beside a live one. -/
theorem Live.not_registers (h : E.Live k g n) : ¬ E.Registers k g' n := by
  rintro ⟨time, -, hr⟩
  have hs := live_iff.mp h
  have hreg := registering (E.state n).cache k time
  rw [hr] at hreg
  generalize ((E.state n).cache.request k time).1 = d at hreg
  cases hreg with
  | @load _ p hp =>
    rw [hp] at hs
    cases p <;> simp at hs

/-- A call that needs a load registers one just if there is no live one to go with. -/
theorem Asks.registers_iff_not_live (ha : E.Asks c k time j)
    (hd : ∀ e, ((E.state j).cache.request k time).2.1 ≠ .hit e) :
    (∃ g, E.Registers k g j) ↔ ¬ ∃ g, E.Live k g j := by
  constructor
  · rintro ⟨g, hr⟩ ⟨g', hl⟩
    exact hl.not_registers hr
  · intro hnone
    have hnew : ((E.state j).cache.joinOrStart k).2.2 = true := by
      rw [isNew_iff]
      rintro ⟨g, hs⟩
      exact hnone ⟨g, live_iff.mpr hs⟩
    have hstart := (joined hd).2
    rw [hnew, if_pos rfl] at hstart
    exact ⟨_, time, ha.1, hstart⟩

/-- A load stays live as long as it runs and its key is not invalidated. -/
theorem Registers.live (hr : E.Registers k g j) (hjn : j < n)
    (hi : ∀ i, j < i → i < n → ¬ E.Invalidates k i)
    (hf : ∀ f time result, f < n → ¬ E.Finishes k g time result f) : E.Live k g n := by
  refine ⟨⟨j, hjn, hr, ?_⟩, hf⟩
  intro i hin hinv
  rcases Nat.lt_trichotomy i j with h | rfl | h
  · exact h
  · exact (hr.not_invalidates hinv).elim
  · exact (hi i h hin hinv).elim

/-- A key without an entry has none until its live load finishes. -/
theorem absent_while_live (hp : (E.state j).cache.peek k = none) (hjn : j ≤ n)
    (hl : ∀ m, j ≤ m → m < n → ¬ ∃ g time result, E.Live k g m ∧ E.Finishes k g time result m) :
    (E.state n).cache.peek k = none := by
  induction hjn with
  | refl => exact hp
  | @step n hjn ih =>
    rw [Option.eq_none_iff_forall_ne_some]
    intro e he
    rcases peek_succ.mp he with ⟨g, time, result, hlive, hf, -⟩ | ⟨he, -, -⟩
    · exact hl n hjn (by omega) ⟨g, time, result, hlive, hf⟩
    · rw [ih fun m hjm hmn => hl m hjm (by omega)] at he
      cases he

/-- As long as the first load of an absent key runs, every call waits for it, unless the key has been
invalidated. -/
theorem Registers.shared (hr : E.Registers k g j) (hp : (E.state j).cache.peek k = none)
    (hfin : E.Finishes k g s result f) (ha : E.Asks c k time q) (hjq : j ≤ q) (hqf : q < f)
    (hi : ∀ i, j < i → i < q → ¬ E.Invalidates k i) : E.Waits c k g (q + 1) := by
  have hnf : ∀ f' time' result', f' < f → ¬ E.Finishes k g time' result' f' := by
    intro f' time' result' hff hfin'
    have := (hfin.unique hfin').1
    omega
  have hlive : ∀ m, j < m → m ≤ q + 1 → E.Live k g m := by
    intro m hjm hmq
    refine hr.live hjm ?_ fun f' time' result' hfm => hnf f' time' result' (by omega)
    intro i hji him hinv
    rcases Nat.lt_succ_iff_lt_or_eq.mp (show i < q + 1 by omega) with hiq | rfl
    · exact hi i hji hiq hinv
    · simp [Invalidates, ha.1] at hinv
  have habsent : (E.state q).cache.peek k = none := by
    refine absent_while_live hp hjq ?_
    rintro m hjm hmq ⟨g', time', result', hl, hf⟩
    rcases Nat.eq_or_lt_of_le hjm with rfl | hjm
    · exact hl.not_registers hr
    · obtain rfl := hl.unique (hlive m hjm (by omega))
      exact hnf m time' result' (by omega) hf
  have hmiss := missed_of_absent time habsent
  rw [(ha.joins hmiss).live.unique (hlive (q + 1) (by omega) (by omega))] at hmiss
  exact ha.decided hmiss

/-- Until a load has finished, no later load of its key begins. -/
theorem Finishes.first_to_begin (hfin : E.Finishes k g s result f) (hb : E.Begins k g' b)
    (hg : g ≤ g') (hbf : b < f) : g' = g := by
  rcases Nat.eq_or_lt_of_le hg with rfl | hlt
  · rfl
  · obtain ⟨f', time', result', hfb, hfin'⟩ := hb.elder_finished hfin.2 hlt
    have := (hfin.unique hfin').1
    omega

/-- Of the loads registered from some load on, the loader is called for that one alone until it has
finished. -/
theorem Finishes.one_call (hfin : E.Finishes k g s result f) :
    ∃ b, b < f ∧ ∀ g' b', g ≤ g' → b' < f → (E.Begins k g' b' ↔ g' = g ∧ b' = b) := by
  obtain ⟨b, hbf, hb⟩ := hfin.begun
  refine ⟨b, hbf, ?_⟩
  intro g' b' hg hbf'
  constructor
  · intro hb'
    obtain rfl := hfin.first_to_begin hb' hg hbf'
    exact ⟨rfl, hb'.unique hb⟩
  · rintro ⟨rfl, rfl⟩
    exact hb

/-! Outcome. -/

/-- A call that has waited is told the outcome of its load's own call of the loader. -/
theorem Waits.told (hw : E.Waits c k g m) (hans : E.Answered c k answer n) :
    ∃ b f s result, b < f ∧ f < n ∧ E.Begins k g b ∧ E.Finishes k g s result f ∧
      answer = outcome k result := by
  obtain ⟨f, s, result, hfn, hfin, -, hout⟩ := hw.until_finished hans
  obtain ⟨b, hbf, hb⟩ := hfin.begun
  exact ⟨b, f, s, result, hbf, hfn, hb, hfin, hout⟩

/-- Who still waits when the load has finished can take its outcome. -/
theorem Waits.can_take (hw : E.Waits c k g n) (hfin : E.Finishes k g s result f) (hfn : f < n) :
    Step (E.state n) (.answer c) ((E.state n).setStanding c (.answered (outcome k result))) := by
  have hp := hfin.phase hfn
  obtain ⟨f', s', result', -, hfin', -, hout⟩ := hw.answer_eq hp
  obtain ⟨-, -, rfl⟩ := hfin.unique hfin'
  rw [← hout]
  exact .answer hw hp

/-- For any interleaving, a call that needs a load registers one just if its key has no live load,
and then there is exactly one; beside a live load none is registered; until the load that an absent
key's call has registered finishes, the loader is called once, and as long as the key is not
invalidated every call waits for that load. All calls that wait for a load are told the outcome of
its own call of the loader, and can take it once there is one. -/
theorem shared_loads (E : Execution κ ν policy) (k : κ) :
    (∀ c j time, E.Asks c k time j → (∀ e, ((E.state j).cache.request k time).2.1 ≠ .hit e) →
      ((∃ g, E.Registers k g j) ↔ ¬ ∃ g, E.Live k g j) ∧
      ∃ g, E.Live k g (j + 1) ∧ ∀ g', E.Live k g' (j + 1) → g' = g) ∧
    (∀ g g' n, E.Live k g n → ¬ E.Registers k g' n) ∧
    (∀ g j f s result, E.Registers k g j → (E.state j).cache.peek k = none →
      E.Finishes k g s result f →
      (∃ b, j < b ∧ b < f ∧
        ∀ g' b', g ≤ g' → b' < f → (E.Begins k g' b' ↔ g' = g ∧ b' = b)) ∧
      ∀ c q time, j ≤ q → q < f → E.Asks c k time q →
        (∀ i, j < i → i < q → ¬ E.Invalidates k i) →
        E.Waits c k g (q + 1) ∧ ∀ g', E.Registers k g' q → g' = g) ∧
    (∀ c g m n answer, E.Waits c k g m → E.Answered c k answer n →
      ∃ b f s result, b < f ∧ f < n ∧ E.Begins k g b ∧ E.Finishes k g s result f ∧
        answer = outcome k result) ∧
    (∀ c c' g m m' n n' answer answer', E.Waits c k g m → E.Waits c' k g m' →
      E.Answered c k answer n → E.Answered c' k answer' n' → answer = answer') ∧
    ∀ c g n f s result, E.Waits c k g n → E.Finishes k g s result f → f < n →
      Step (E.state n) (.answer c)
        ((E.state n).setStanding c (.answered (outcome k result))) := by
  refine ⟨?_, ?_, ?_, ?_, ?_, ?_⟩
  · intro c j time ha hd
    refine ⟨ha.registers_iff_not_live hd, _, Joins.live ⟨time, ha, hd, rfl⟩, ?_⟩
    intro g' hl
    exact hl.unique (Joins.live ⟨time, ha, hd, rfl⟩)
  · intro g g' n hl
    exact hl.not_registers
  · intro g j f s result hr hp hfin
    constructor
    · obtain ⟨b, hbf, hb⟩ := hfin.one_call
      have hjb := hr.lt_begins ((hb g b (Nat.le_refl g) hbf).mpr ⟨rfl, rfl⟩)
      exact ⟨b, hjb, hbf, hb⟩
    · intro c q time hjq hqf ha hi
      have hw := hr.shared hp hfin ha hjq hqf hi
      refine ⟨hw, ?_⟩
      intro g' hr'
      exact (live_succ.mpr (Or.inl hr')).unique (hw.live ha)
  · intro c g m n answer hw hans
    exact hw.told hans
  · intro c c' g m m' n n' answer answer' hw hw' hans hans'
    obtain ⟨b, f, s, result, -, -, -, hfin, rfl⟩ := hw.told hans
    obtain ⟨b', f', s', result', -, -, -, hfin', rfl⟩ := hw'.told hans'
    obtain ⟨-, -, rfl⟩ := hfin.unique hfin'
    rfl
  · intro c g n f s result hw hfin hfn
    exact hw.can_take hfin hfn

/-- Two calls wait for the second load, the first load's caller is told its own value in spite of the
invalidation, and the last caller that its load crashed. -/
theorem shared_loads_sample :
    ((∃ g, sample.Registers 0 g 12) ↔ ¬ ∃ g, sample.Live 0 g 12) ∧
      ¬ sample.Registers 0 2 4 ∧ sample.Waits 2 0 1 5 ∧
      (∃ b f s result, b < f ∧ f < 8 ∧ sample.Begins 0 0 b ∧ sample.Finishes 0 0 s result f ∧
        Except.ok 7 = outcome 0 result) ∧
      sample.Answered 1 0 (.ok 8) 10 ∧ (∀ answer, sample.Answered 2 0 answer 11 → .ok 8 = answer) ∧
      Step (sample.state 19) (.answer 6)
        ((sample.state 19).setStanding 6 (.answered (.error (.abandoned 0)))) :=
  have hstale : ((sample.state 12).cache.request 0 ⟨9, 0⟩).2.1 = .staleHit (.loaded 8 ⟨3, 0⟩) := rfl
  have hlive : sample.Live 0 1 4 := live_iff.mpr rfl
  have hfin : sample.Finishes 0 1 ⟨3, 0⟩ (some (.ok 8)) 8 := ⟨rfl, rfl⟩
  have hall := shared_loads sample 0
  ⟨(hall.1 4 12 ⟨9, 0⟩ ⟨rfl, rfl⟩ (by simp [hstale])).1, hall.2.1 1 2 4 hlive,
    ((hall.2.2.1 1 3 8 _ _ ⟨_, rfl, rfl⟩ rfl hfin).2 2 4 ⟨1, 0⟩ (by decide) (by decide) ⟨rfl, rfl⟩
      (by omega)).1,
    hall.2.2.2.1 0 0 1 8 _ rfl rfl,
    rfl, fun answer => hall.2.2.2.2.1 1 2 1 4 5 10 11 _ answer rfl rfl rfl,
    hall.2.2.2.2.2 6 3 19 18 ⟨15, 0⟩ none rfl ⟨rfl, rfl⟩ (by decide)⟩

end RowReplay.Cache.Execution
