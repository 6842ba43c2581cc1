import RowReplay.Proofs.Cache.Reloading

/-!
The first calls for a key. However many of them come, and in whatever order with the load that the
first of them registers, that load is the only one: the others wait for it, or find what it has
stored still fresh.
-/
namespace RowReplay.Cache

/-- Without an earlier entry a load makes one of its own result. -/
theorem entryOf_of_absent {κ ν : Type} [DecidableEq κ] {c : Cache κ ν} {k : κ}
    (h : c.peek k = none) (time : ClockReading) (r : Except LoadError ν) :
    c.entryOf k time (some r) = some (.ofResult r time) := by
  cases r with
  | ok v => rfl
  | error error =>
    simp only [peek] at h
    simp [entryOf, h, Entry.ofResult]

namespace Execution

variable {κ ν : Type} [DecidableEq κ] {policy : FreshnessPolicy} {E : Execution κ ν policy}
  {b b' c f f' g g' j m n q q' : Nat} {k : κ} {s s' time : ClockReading}
  {result : LoadResult ν} {r : Except LoadError ν} {answer : Except (CacheError κ) ν}
  {result' : LoadResult ν} {e : Entry ν}

/-- From some step on a key is used for the first time: it has neither an entry nor a load, it is not
invalidated, the loader does not crash, and no call is decided past the refresh point or the time to
live of the first load that finishes, whichever is earlier. -/
structure FirstUse (E : Execution κ ν policy) (k : κ) (j : Nat) : Prop where
  absent : (E.state j).cache.peek k = none
  free : (E.state j).cache.isLoading k = false
  kept : ∀ i, j ≤ i → ¬ E.Invalidates k i
  answers : ∀ g s f, j ≤ f → ¬ E.Finishes k g s none f
  prompt : ∀ g s result f, j ≤ f → E.Finishes k g s result f →
    (∀ g' s' result' f', j ≤ f' → f' < f → ¬ E.Finishes k g' s' result' f') →
    ∀ c time i, f < i → E.Asks c k time i →
      time.elapsed - s.elapsed ≤ min policy.refreshAfter.nanos policy.ttl.nanos

/-- The load is the first one of its key from some step on. -/
structure Opens (E : Execution κ ν policy) (k : κ) (j g q : Nat) : Prop where
  since : j ≤ q
  registers : E.Registers k g q
  first : ∀ g' q', j ≤ q' → q' < q → ¬ E.Registers k g' q'

/-- A load that finishes has not done so before. -/
theorem Finishes.not_before (h : E.Finishes k g s result f) (hlt : f' < f) :
    ¬ E.Finishes k g s' result' f' := by
  intro h'
  have := (h.unique h').1
  omega

theorem Opens.lt_of_finishes (ho : E.Opens k j g q) (hfin : E.Finishes k g s result f) : q < f := by
  obtain ⟨q', hq', hr'⟩ := hfin.before.1
  rwa [ho.registers.unique hr']

namespace FirstUse

/-- A load that is unfinished has been registered since. -/
theorem registered_since (h : E.FirstUse k j) (hu : E.Unfinished k g n) (hjn : j ≤ n) :
    ∃ q, j ≤ q ∧ q < n ∧ E.Registers k g q := by
  obtain ⟨⟨q, hqn, hr⟩, hf⟩ := hu
  refine ⟨q, Nat.le_of_not_lt fun hqj => ?_, hqn, hr⟩
  have hbusy : (E.state j).cache.isLoading k = true :=
    isLoading_iff.mpr ⟨g, ⟨q, hqj, hr⟩, fun f s result hfj => hf f s result (by omega)⟩
  simp [h.free] at hbusy

theorem opens (h : j ≤ q) (hr : E.Registers k g q) : ∃ g' q', q' ≤ q ∧ E.Opens k j g' q' := by
  induction q using Nat.strongRecOn generalizing g with
  | ind q ih =>
    by_cases hex : ∃ g' q', j ≤ q' ∧ q' < q ∧ E.Registers k g' q'
    · obtain ⟨g', q', hjq', hq', hr'⟩ := hex
      obtain ⟨g'', q'', hle, ho⟩ := ih q' hq' hjq' hr'
      exact ⟨g'', q'', by omega, ho⟩
    · exact ⟨g, q, Nat.le_refl q, h, hr, fun g' q' hjq' hq' hr' => hex ⟨g', q', hjq', hq', hr'⟩⟩

theorem live (h : E.FirstUse k j) (ho : E.Opens k j g q) (hqn : q < n)
    (hu : ∀ f s result, f < n → ¬ E.Finishes k g s result f) : E.Live k g n := by
  have hjq := ho.since
  exact ho.registers.live hqn (fun i hqi _ => h.kept i (by omega)) hu

/-- Until the first load has finished, no other one of its key does. -/
theorem finishes_first (h : E.FirstUse k j) (ho : E.Opens k j g q) (hjf : j ≤ f)
    (hfin : E.Finishes k g' s result f)
    (hu : ∀ f' s' result', f' < f → ¬ E.Finishes k g s' result' f') : g' = g := by
  obtain ⟨q', hjq', hq'f, hr'⟩ := h.registered_since hfin.before hjf
  rcases Nat.lt_trichotomy q q' with hqq' | rfl | hq'q
  · have hlive := h.live ho hqq' fun f' s' result' hf' => hu f' s' result' (by omega)
    exact (hlive.not_registers hr').elim
  · rw [ho.registers.not_before, hr'.not_before]
  · exact (ho.first g' q' hjq' hq'q hr').elim

/-- Until the first load has finished, its key has no entry. -/
theorem absent_until (h : E.FirstUse k j) (ho : E.Opens k j g q) (hjn : j ≤ n)
    (hu : ∀ f s result, f < n → ¬ E.Finishes k g s result f) :
    (E.state n).cache.peek k = none := by
  refine absent_while_live h.absent hjn ?_
  rintro m hjm hmn ⟨g', s, result, -, hfin⟩
  obtain rfl := h.finishes_first ho hjm hfin fun f s result hfm => hu f s result (by omega)
  exact hu m s result hmn hfin

/-- The first load stores what it brings. -/
theorem stores (h : E.FirstUse k j) (ho : E.Opens k j g q) (hfin : E.Finishes k g s (some r) f) :
    E.Stores k g s r f := by
  have hqf := ho.lt_of_finishes hfin
  have hjq := ho.since
  have hlive := h.live ho hqf fun f' s' result' hlt => hfin.not_before hlt
  have habsent := h.absent_until ho (by omega) fun f' s' result' hlt => hfin.not_before hlt
  exact ⟨hfin, hlive, hfin.peek_succ.mpr (Or.inl ⟨rfl, hlive, entryOf_of_absent habsent s r⟩)⟩

/-- Every call that comes after the first load finds its entry fresh. -/
theorem quiet (h : E.FirstUse k j) (ho : E.Opens k j g q) (hfin : E.Finishes k g s result f) (n : Nat) :
    E.Quiet k s f n := by
  have hqf := ho.lt_of_finishes hfin
  have hjq := ho.since
  intro i hfi hin
  refine ⟨h.kept i (by omega), fun c time ha => ?_⟩
  refine h.prompt g s result f (by omega) hfin ?_ c time i hfi ha
  intro g' s' result' f' hjf' hlt hfin'
  obtain rfl := h.finishes_first ho hjf' hfin' fun f'' s'' result'' hlt' =>
    hfin.not_before (by omega)
  exact hfin.not_before hlt hfin'

/-- No other load of the key is registered. -/
theorem registers_once (h : E.FirstUse k j) (ho : E.Opens k j g q) (hjq' : j ≤ q')
    (hr' : E.Registers k g' q') : g' = g := by
  by_cases hfin : ∃ f s result, f < q' ∧ E.Finishes k g s result f
  · obtain ⟨f, s, result, hfq', hfin⟩ := hfin
    have hqf := ho.lt_of_finishes hfin
    have hjq := ho.since
    have hjf : j ≤ f := by omega
    cases result with
    | none => exact (h.answers g s f hjf hfin).elim
    | some r =>
      obtain ⟨hp, -⟩ := (h.stores ho hfin).quiet hfq' (h.quiet ho hfin q')
      obtain ⟨time, he, -⟩ := id hr'
      have ha : E.Asks _ k time q' := ⟨he, rfl⟩
      have ht := (h.quiet ho hfin (q' + 1) q' hfq' (Nat.lt_succ_self q')).2 _ time ha
      exact (ha.not_registers hp ht hr').elim
  · rcases Nat.lt_trichotomy q q' with hqq' | rfl | hq'q
    · have hlive := h.live ho hqq' fun f s result hf hfin' => hfin ⟨f, s, result, hf, hfin'⟩
      exact (hlive.not_registers hr').elim
    · rw [ho.registers.not_before, hr'.not_before]
    · exact (ho.first g' q' hjq' hq'q hr').elim

/-- All loads of the key that are unfinished since are one. -/
theorem unfinished_once (h : E.FirstUse k j) (hjm : j ≤ m) (hjn : j ≤ n)
    (hu : E.Unfinished k g m) (hu' : E.Unfinished k g' n) : g = g' := by
  obtain ⟨q, hjq, -, hr⟩ := h.registered_since hu hjm
  obtain ⟨q', hjq', -, hr'⟩ := h.registered_since hu' hjn
  obtain ⟨g₀, q₀, -, ho⟩ := opens hjq hr
  rw [h.registers_once ho hjq hr, h.registers_once ho hjq' hr']

/-- The loader is called for the key once at most. -/
theorem begins_once (h : E.FirstUse k j) (hjb : j ≤ b) (hjb' : j ≤ b') (hb : E.Begins k g b)
    (hb' : E.Begins k g' b') : g = g' ∧ b = b' := by
  obtain rfl := h.unfinished_once hjb hjb' hb.unfinished hb'.unfinished
  exact ⟨rfl, hb.unique hb'⟩

/-- All calls of the loader for the key that end since are one. -/
theorem finishes_once (h : E.FirstUse k j) (hjf : j ≤ f) (hjf' : j ≤ f')
    (hfin : E.Finishes k g s result f) (hfin' : E.Finishes k g' s' result' f') :
    g = g' ∧ f = f' ∧ s = s' ∧ result = result' := by
  obtain rfl := h.unfinished_once hjf hjf' hfin.before hfin'.before
  exact ⟨rfl, hfin.unique hfin'⟩

theorem finishes_with_result (h : E.FirstUse k j) (hjf : j ≤ f) (hfin : E.Finishes k g s result f) :
    ∃ r, result = some r := by
  cases result with
  | none => exact (h.answers g s f hjf hfin).elim
  | some r => exact ⟨r, rfl⟩

/-- The entry of the key is what the first load has brought. -/
theorem entry_eq (h : E.FirstUse k j) (hjn : j ≤ n) (hp : (E.state n).cache.peek k = some e) :
    ∃ g s r f, j ≤ f ∧ f < n ∧ E.Finishes k g s (some r) f ∧ e = .ofResult r s := by
  by_cases hex : ∃ f g s result, j ≤ f ∧ f < n ∧ E.Finishes k g s result f
  · obtain ⟨f, g, s, result, hjf, hfn, hfin⟩ := hex
    obtain ⟨r, rfl⟩ := h.finishes_with_result hjf hfin
    obtain ⟨q, hjq, -, hr⟩ := h.registered_since hfin.before hjf
    obtain ⟨g₀, q₀, -, ho⟩ := opens hjq hr
    obtain rfl := h.registers_once ho hjq hr
    have hstays := ((h.stores ho hfin).quiet hfn (h.quiet ho hfin n)).1
    exact ⟨g, s, r, f, hjf, hfn, hfin, Option.some.inj (hp.symm.trans hstays)⟩
  · have habsent : (E.state n).cache.peek k = none := by
      refine absent_while_live h.absent hjn ?_
      rintro m hjm hmn ⟨g, s, result, -, hfin⟩
      exact hex ⟨m, g, s, result, hjm, hmn, hfin⟩
    simp [hp] at habsent

/-- Every call is answered with the outcome of the one call of the loader. -/
theorem answered (h : E.FirstUse k j) (hjq : j ≤ q) (ha : E.Asks c k time q)
    (hans : E.Answered c k answer n) :
    ∃ g s r f, j ≤ f ∧ f < n ∧ E.Finishes k g s (some r) f ∧ answer = outcome k (some r) := by
  obtain ⟨q', time', hqn, ha', hcase⟩ := hans.origin
  obtain ⟨rfl, -, -⟩ := ha.unique ha'
  rcases hcase with ⟨e, hp, -, rfl, -⟩ | ⟨g, f, s, result, hfn, -, hwf, hfin, rfl⟩
  · obtain ⟨g, s, r, f, hjf, hfq, hfin, rfl⟩ := h.entry_eq hjq hp
    exact ⟨g, s, r, f, hjf, by omega, hfin, Entry.result_ofResult k r s⟩
  · have hqf := ha.lt_of_waits hwf
    obtain ⟨r, rfl⟩ := h.finishes_with_result (by omega) hfin
    exact ⟨g, s, r, f, by omega, hfn, hfin, rfl⟩

end FirstUse

/-! What the executor's tasks owe to the callers. -/

/-- An action that can be taken from some time on is taken. -/
def Fair (E : Execution κ ν policy) (a : Action κ ν) : Prop :=
  ∀ m, (∀ n, m ≤ n → ∃ t, Step (E.state n) a t) → ∃ n, m ≤ n ∧ E.event n = some a

/-- Loads that can begin do so, and callers that wait are told. -/
structure Driven (E : Execution κ ν policy) : Prop where
  begins : ∀ g, E.Fair (.begin g)
  answers : ∀ c, E.Fair (.answer c)

theorem Waits.succ (h : E.Waits c k g n) :
    E.Waits c k g (n + 1) ∨ E.event n = some (.cancel c) ∨
      ∃ answer, E.Answered c k answer (n + 1) := by
  simp only [Waits, Answered] at h ⊢
  cases he : E.event n with
  | none =>
    rw [E.pad n he]
    exact Or.inl h
  | some a =>
    have hs := E.step n a he
    generalize E.state (n + 1) = t at hs ⊢
    cases hs with
    | get =>
      have hc := (List.getElem?_eq_some_iff.mp h).1
      refine Or.inl ?_
      simpa [State.ask, List.getElem?_append_left hc] using h
    | @cancel i =>
      by_cases hi : i = c
      · exact Or.inr (Or.inl (by rw [hi]))
      · exact Or.inl (by simpa [State.setStanding, hi] using h)
    | @answer i g' k' entry hc hp =>
      by_cases hi : i = c
      · subst hi
        refine Or.inr (Or.inr ⟨Cache.answer k entry, ?_⟩)
        obtain ⟨rfl, rfl⟩ : k' = k ∧ g' = g := by simpa [hc] using h
        simp [State.setStanding, hc]
      · exact Or.inl (by simpa [State.setStanding, hi] using h)
    | _ => exact Or.inl h

/-- A call that waits no longer has been dropped or answered. -/
theorem Waits.leaves (h : E.Waits c k g m) (hn : ¬ E.Waits c k g n) (hmn : m ≤ n) :
    ∃ i, m ≤ i ∧ (E.event i = some (.cancel c) ∨ ∃ answer, E.Answered c k answer (i + 1)) := by
  induction hmn with
  | refl => exact (hn h).elim
  | @step n hmn ih =>
    by_cases hw : E.Waits c k g n
    · exact ⟨n, hmn, hw.succ.resolve_left hn⟩
    · exact ih hw

/-- A call that waits for a load that finishes is told of it, unless it is dropped. -/
theorem Driven.told (hd : E.Driven) (hw : E.Waits c k g m) (hfin : E.Finishes k g s result f) :
    ∃ n, m ≤ n ∧ (E.event n = some (.cancel c) ∨ E.Answered c k (outcome k result) (n + 1)) := by
  obtain ⟨n, hn, hleave⟩ : ∃ n, m ≤ n ∧
      (E.event n = some (.cancel c) ∨ ∃ answer, E.Answered c k answer (n + 1)) := by
    by_cases hstays : ∀ n, m ≤ n → E.Waits c k g n
    · obtain ⟨n, hn, he⟩ := hd.answers c (max m (f + 1)) fun n hn =>
        ⟨_, (hstays n (by omega)).can_take hfin (by omega)⟩
      refine hw.leaves (n := n + 1) ?_ (by omega)
      have hstep := E.step n _ he
      have hwaits := hstays n (by omega)
      simp only [Waits] at hwaits ⊢
      generalize E.state (n + 1) = t at hstep ⊢
      cases hstep with
      | answer => simp [State.setStanding, hwaits]
    · obtain ⟨n, hn⟩ := Classical.not_forall.mp hstays
      obtain ⟨hmn, hno⟩ := Classical.not_imp.mp hn
      exact hw.leaves hno hmn
  refine ⟨n, hn, hleave.imp_right ?_⟩
  rintro ⟨answer, hans⟩
  obtain ⟨f', s', result', -, hfin', -, rfl⟩ := hw.until_finished hans
  obtain ⟨-, -, rfl⟩ := hfin.unique hfin'
  exact hans

namespace FirstUse

/-- A call for the key comes after the registration of its first load, or with it. -/
theorem exists_opens (h : E.FirstUse k j) (hjq : j ≤ q) (ha : E.Asks c k time q) :
    ∃ g q', q' ≤ q ∧ E.Opens k j g q' := by
  by_cases hex : ∃ g q', j ≤ q' ∧ q' < q ∧ E.Registers k g q'
  · obtain ⟨g, q', hjq', hq', hr⟩ := hex
    obtain ⟨g', q'', hle, ho⟩ := opens hjq' hr
    exact ⟨g', q'', by omega, ho⟩
  · have hnone : ∀ n, j ≤ n → n ≤ q → ∀ g, ¬ E.Unfinished k g n := by
      intro n hjn hnq g hu
      obtain ⟨q', hjq', hq', hr⟩ := h.registered_since hu hjn
      exact hex ⟨g, q', hjq', by omega, hr⟩
    have habsent : (E.state q).cache.peek k = none := by
      refine absent_while_live h.absent hjq ?_
      rintro m hjm hmq ⟨g, s, result, -, hfin⟩
      exact hnone m hjm (by omega) g hfin.before
    have hmiss := missed_of_absent time habsent
    obtain ⟨g, hr⟩ := (ha.registers_iff_not_live (by simp [hmiss])).mpr fun ⟨g, hl⟩ =>
      hnone q hjq (Nat.le_refl q) g (unfinished_iff.mpr ⟨hl.key, hl.unfinished⟩)
    exact ⟨g, q, Nat.le_refl q, hjq, hr, fun g' q' hjq' hq' hr' => hex ⟨g', q', hjq', hq', hr'⟩⟩

/-- All loads of the key before the first one have finished. -/
theorem elder_finished (h : E.FirstUse k j) (ho : E.Opens k j g q) (hjn : j ≤ n) (hlt : g' < g)
    (hk : (E.state n).cache.keyOf g' = some k) : (E.state n).cache.Finished g' := by
  obtain ⟨q', hq', hr'⟩ := registered_iff.mp hk
  have hqq := (registers_lt_iff hr' ho.registers).mp hlt
  have hq'j : q' < j := Nat.lt_of_not_le fun hjq' => ho.first g' q' hjq' hqq hr'
  refine finished_mono ?_ hjn
  refine Classical.byContradiction fun hu => ?_
  have hbusy : (E.state j).cache.isLoading k = true :=
    isLoading_iff.mpr ⟨g', unfinished_iff.mpr ⟨registered_iff.mpr ⟨q', hq'j, hr'⟩, hu⟩⟩
  simp [h.free] at hbusy

/-- The loader is called for the first load. -/
theorem begins (h : E.FirstUse k j) (hd : E.Driven) (ho : E.Opens k j g q) :
    ∃ b, j ≤ b ∧ E.Begins k g b := by
  have hjq := ho.since
  by_cases hex : ∃ b, E.Begins k g b
  · obtain ⟨b, hb⟩ := hex
    have hqb := ho.registers.lt_begins hb
    exact ⟨b, by omega, hb⟩
  · have hkey : ∀ n, q + 1 ≤ n → (E.state n).cache.keyOf g = some k := fun n hn =>
      registered_iff.mpr ⟨q, hn, ho.registers⟩
    obtain ⟨n, hn, he⟩ := hd.begins g (q + 1) fun n hn => by
      have hk := hkey n hn
      obtain ⟨load, hl, -⟩ := Option.map_eq_some_iff.mp hk
      obtain ⟨-, hp, hph⟩ := lookups hl
      have huncalled : ¬ (E.state n).cache.Called g := by
        intro hc
        obtain ⟨b, -, k', hb⟩ := called_iff.mp hc
        obtain rfl := key_unique hb.2 hk
        exact hex ⟨b, hb⟩
      have hq : load.phase = .queued := by
        cases hphase : load.phase with
        | queued => rfl
        | running => exact (huncalled (Or.inl (hph.trans (by rw [hphase])))).elim
        | finished entry => exact (huncalled (Or.inr ⟨entry, hph.trans (by rw [hphase])⟩)).elim
      refine ⟨_, .begin hl hq (isReady_iff.mpr fun p hpred => ?_)⟩
      rw [hpred] at hp
      have hlt := (E.chained n).older g p hp
      exact h.elder_finished ho (by omega) hlt (predecessor_key hk hp)
    exact (hex ⟨n, he, hkey n hn⟩).elim

/-- Every call is told the outcome of the one call of the loader, unless it is dropped. -/
theorem told (h : E.FirstUse k j) (hd : E.Driven) (hjq : j ≤ q) (ha : E.Asks c k time q) (hjf : j ≤ f)
    (hfin : E.Finishes k g s (some r) f) :
    ∃ n, q ≤ n ∧ (E.event n = some (.cancel c) ∨ E.Answered c k (outcome k (some r)) (n + 1)) := by
  have hserved : ∀ e, (E.state q).cache.peek k = some e → e.freshness policy time ≠ .expired →
      E.Answered c k (outcome k (some r)) (q + 1) := by
    intro e hp hexp
    obtain ⟨g', s', r', f', hjf', -, hfin', rfl⟩ := h.entry_eq hjq hp
    obtain ⟨-, -, -, hr⟩ := h.finishes_once hjf hjf' hfin hfin'
    rw [hr, ← Entry.result_ofResult k r' s']
    exact ha.served hp hexp
  cases hdecided : ((E.state q).cache.request k time).2.1 with
  | miss g' =>
    have hw := ha.decided hdecided
    have hlive := hw.live ha
    obtain rfl := h.unfinished_once (by omega) hjf
      (unfinished_iff.mpr ⟨hlive.key, hlive.unfinished⟩) hfin.before
    obtain ⟨n, hn, htold⟩ := hd.told hw hfin
    exact ⟨n, by omega, htold⟩
  | hit e =>
    obtain ⟨hp, hexp⟩ := served (Or.inl hdecided)
    exact ⟨q, Nat.le_refl q, Or.inr (hserved e hp (by rwa [E.policy_eq] at hexp))⟩
  | staleHit e =>
    obtain ⟨hp, hexp⟩ := served (Or.inr hdecided)
    exact ⟨q, Nat.le_refl q, Or.inr (hserved e hp (by rwa [E.policy_eq] at hexp))⟩

/-- The loader is called exactly once for the key. -/
theorem one_call (h : E.FirstUse k j) (hd : E.Driven) (hjq : j ≤ q) (ha : E.Asks c k time q) :
    ∃ g b, j ≤ b ∧ ∀ g' b', j ≤ b' → (E.Begins k g' b' ↔ g' = g ∧ b' = b) := by
  obtain ⟨g, q', -, ho⟩ := h.exists_opens hjq ha
  obtain ⟨b, hjb, hb⟩ := h.begins hd ho
  refine ⟨g, b, hjb, fun g' b' hjb' => ⟨fun hb' => h.begins_once hjb' hjb hb' hb, ?_⟩⟩
  rintro ⟨rfl, rfl⟩
  exact hb

end FirstUse

end Execution

end RowReplay.Cache
