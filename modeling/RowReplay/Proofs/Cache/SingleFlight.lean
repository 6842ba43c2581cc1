import RowReplay.Proofs.Cache.History

/-!
Single flight: the loader works for at most one load of a key at a time, for each load once, and in
the order in which the loads were registered.
-/
namespace RowReplay

def LoadPhase.isRunning {ν : Type} : LoadPhase ν → Bool
  | .running => true
  | _ => false

/-- If all hits of a predicate stand at one place, there is at most one. -/
theorem countP_le_one {α : Type} {p : α → Bool} {l : List α}
    (h : ∀ (i j : Nat) (a b : α), l[i]? = some a → l[j]? = some b → p a → p b → i = j) :
    l.countP p ≤ 1 := by
  induction l with
  | nil => simp
  | cons a l ih =>
    rw [List.countP_cons]
    by_cases hp : p a = true
    · have hrest : l.countP p = 0 := by
        rw [List.countP_eq_zero]
        intro b hb hpb
        obtain ⟨j, hj⟩ := List.mem_iff_getElem?.mp hb
        have := h 0 (j + 1) a b (by simp) (by simpa using hj) hp hpb
        omega
      simp [hp, hrest]
    · rw [if_neg hp]
      apply ih
      intro i j a b hi hj ha hb
      have := h (i + 1) (j + 1) a b (by simpa using hi) (by simpa using hj) ha hb
      omega

namespace Cache

variable {κ ν : Type} [DecidableEq κ]

/-- The calls of the loader for a key that are under way. -/
def callsUnderWay (c : Cache κ ν) (k : κ) : Nat :=
  c.loads.countP fun load => decide (load.key = k) && load.phase.isRunning

theorem Chained.callsUnderWay_le_one {c : Cache κ ν} (h : c.Chained) (k : κ) :
    c.callsUnderWay k ≤ 1 := by
  have hrun : ∀ {i : Nat} {a : Load κ ν}, c.loads[i]? = some a →
      (decide (a.key = k) && a.phase.isRunning) = true →
      c.keyOf i = some k ∧ c.phaseOf i = some .running := by
    intro i a hi ha
    obtain ⟨hk, -, hph⟩ := lookups hi
    obtain ⟨rfl, hr⟩ : a.key = k ∧ a.phase.isRunning = true := by simpa using ha
    cases hp : a.phase <;> simp [hp, LoadPhase.isRunning] at hr
    exact ⟨hk, by rw [hph, hp]⟩
  apply countP_le_one
  intro i j a b hi hj ha hb
  obtain ⟨hki, hri⟩ := hrun hi ha
  obtain ⟨hkj, hrj⟩ := hrun hj hb
  rcases Nat.lt_trichotomy i j with hij | hij | hij
  · exact (not_finished_of_running hri (h.called k j hkj (Or.inl hrj) i hij hki)).elim
  · exact hij
  · exact (not_finished_of_running hrj (h.called k i hki (Or.inl hri) j hij hkj)).elim

namespace Execution

variable {policy : FreshnessPolicy} {E : Execution κ ν policy} {k : κ} {g g' b b' q q' : Nat}

/-- The loader is called for the loads of a key in the order of their registration. -/
theorem begins_lt (hb : E.Begins k g b) (hb' : E.Begins k g' b') (h : g < g') : b < b' := by
  obtain ⟨f, time, result, hf, hfin⟩ := hb'.elder_finished hb.2 h
  obtain ⟨a, haf, hbegin⟩ := hfin.begun
  have := hb.unique hbegin
  omega

/-- For any interleaving, at most one call of the loader for a key is under way; the loads of the
key call it at most once each and in the order of their registration, each after all earlier loads
have finished. -/
theorem single_flight (E : Execution κ ν policy) (k : κ) :
    (∀ n, (E.state n).cache.callsUnderWay k ≤ 1) ∧
    (∀ g b b', E.Begins k g b → E.Begins k g b' → b = b') ∧
    (∀ g g' q q', E.Registers k g q → E.Registers k g' q' → (g < g' ↔ q < q')) ∧
    (∀ g g' b b', E.Begins k g b → E.Begins k g' b' → (g < g' ↔ b < b')) ∧
    ∀ g g' q q' b', E.Registers k g q → E.Registers k g' q' → q < q' → E.Begins k g' b' →
      ∃ f time result, f < b' ∧ E.Finishes k g time result f := by
  refine ⟨?_, ?_, ?_, ?_, ?_⟩
  · intro n
    exact (E.chained n).callsUnderWay_le_one k
  · intro g b b' hb hb'
    exact hb.unique hb'
  · intro g g' q q' hg hg'
    exact registers_lt_iff hg hg'
  · intro g g' b b' hb hb'
    rcases Nat.lt_trichotomy g g' with h | rfl | h
    · exact iff_of_true h (begins_lt hb hb' h)
    · have := hb.unique hb'
      omega
    · have := begins_lt hb' hb h
      omega
  · intro g g' q q' b' hg hg' hq hb'
    exact hb'.elder_finished (registered_iff.mpr ⟨q, Nat.lt_succ_self q, hg⟩) (registers_lt hg hg' hq)

/-- The load registered second begins after the first one, which was invalidated meanwhile. -/
theorem single_flight_sample :
    sample.Registers 0 0 0 ∧ sample.Invalidates 0 2 ∧ sample.Registers 0 1 3 ∧
      sample.Begins 0 1 6 ∧ (sample.state 6).cache.callsUnderWay 0 ≤ 1 ∧
      ∃ f time result, f < 6 ∧ sample.Finishes 0 0 time result f :=
  have hfirst : sample.Registers 0 0 0 := ⟨_, rfl, rfl⟩
  have hsecond : sample.Registers 0 1 3 := ⟨_, rfl, rfl⟩
  have hbegin : sample.Begins 0 1 6 := ⟨rfl, rfl⟩
  have hall := single_flight sample 0
  ⟨hfirst, Or.inl rfl, hsecond, hbegin, hall.1 6,
    hall.2.2.2.2 0 1 0 3 6 hfirst hsecond (by decide) hbegin⟩

end Execution

end Cache

end RowReplay
