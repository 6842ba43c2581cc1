/-!
Finite maps as lists of pairs with distinct keys. A new key goes to the end and a known one keeps
its place; only the look-up matters for what a map means, and a lemma says what each operation does
to it.
-/
namespace RowReplay

structure Table (κ α : Type) where
  pairs : List (κ × α)
  distinct : (pairs.map Prod.fst).Nodup

namespace Table

variable {κ α : Type} [DecidableEq κ]

def empty : Table κ α := ⟨[], by simp⟩

instance : Inhabited (Table κ α) := ⟨empty⟩

def get? (t : Table κ α) (k : κ) : Option α := (t.pairs.find? fun p => p.1 = k).map Prod.snd

def contains (t : Table κ α) (k : κ) : Bool := (t.get? k).isSome

def size (t : Table κ α) : Nat := t.pairs.length

/-- Replaces the value of a key in its place, if the key is there. -/
def replace (t : Table κ α) (k : κ) (a : α) : Table κ α where
  pairs := t.pairs.map fun p => if p.1 = k then (p.1, a) else p
  distinct := by
    have h : (t.pairs.map fun p => if p.1 = k then (p.1, a) else p).map Prod.fst =
        t.pairs.map Prod.fst := by
      rw [List.map_map]
      apply List.map_congr_left
      intro p _
      simp only [Function.comp]
      split <;> rfl
    rw [h]
    exact t.distinct

def insert (t : Table κ α) (k : κ) (a : α) : Table κ α :=
  if h : k ∈ t.pairs.map Prod.fst then t.replace k a
  else
    ⟨t.pairs ++ [(k, a)], by
      rw [List.map_append, List.nodup_append]
      refine ⟨t.distinct, by simp, ?_⟩
      intro x hx y hy e
      simp only [List.map_cons, List.map_nil, List.mem_singleton] at hy
      exact h (hy ▸ e ▸ hx)⟩

def erase (t : Table κ α) (k : κ) : Table κ α where
  pairs := t.pairs.filter fun p => p.1 ≠ k
  distinct := t.distinct.sublist (List.filter_sublist.map Prod.fst)

/-- Changes every value. -/
def mapValues (t : Table κ α) (f : α → α) : Table κ α where
  pairs := t.pairs.map fun p => (p.1, f p.2)
  distinct := by
    rw [List.map_map]
    exact t.distinct

/-! What each operation does to the look-up. -/

@[simp] theorem get?_empty (k : κ) : (empty : Table κ α).get? k = none := rfl

/-- Replacing keeps every place, so only the look-up of the replaced key changes. -/
theorem find?_replaced (l : List (κ × α)) (k j : κ) (a : α) :
    ((l.map fun p => if p.1 = k then (p.1, a) else p).find? fun p => p.1 = j).map Prod.snd =
      if j = k then ((l.find? fun p => p.1 = j).map Prod.snd).map fun _ => a
      else (l.find? fun p => p.1 = j).map Prod.snd := by
  induction l with
  | nil => simp
  | cons p l ih => by_cases hp : p.1 = k <;> by_cases hj : p.1 = j <;> grind

@[simp] theorem get?_replace (t : Table κ α) (k j : κ) (a : α) :
    (t.replace k a).get? j = if j = k then (t.get? j).map fun _ => a else t.get? j :=
  find?_replaced t.pairs k j a

/-- A key has no value exactly when it is not among the keys. -/
theorem get?_eq_none_iff (t : Table κ α) (k : κ) :
    t.get? k = none ↔ k ∉ t.pairs.map Prod.fst := by
  simp only [get?, Option.map_eq_none_iff, List.find?_eq_none, List.mem_map, decide_eq_true_eq]
  exact ⟨fun h ⟨p, hp, e⟩ => h p hp e, fun h p hp e => h ⟨p, hp, e⟩⟩

@[simp] theorem get?_insert (t : Table κ α) (k j : κ) (a : α) :
    (t.insert k a).get? j = if j = k then some a else t.get? j := by
  unfold insert
  split
  case isTrue h =>
    rw [get?_replace]
    split
    case isTrue e =>
      subst e
      cases hg : t.get? j with
      | some b => rfl
      | none => exact absurd h ((get?_eq_none_iff t j).1 hg)
    case isFalse e => rfl
  case isFalse h =>
    simp only [get?, List.find?_append]
    have hk : (t.pairs.find? fun p => p.1 = k) = none := by
      simpa [get?] using (get?_eq_none_iff t k).2 h
    by_cases e : j = k
    · subst e
      simp [hk]
    · simp [e, Ne.symm e]

@[simp] theorem get?_erase (t : Table κ α) (k j : κ) :
    (t.erase k).get? j = if j = k then none else t.get? j := by
  simp only [get?, erase, List.find?_filter]
  by_cases e : j = k
  · subst e
    simp [List.find?_eq_none]
  · simp only [e, if_false]
    congr 2
    funext p
    by_cases h : p.1 = j <;> grind

@[simp] theorem get?_mapValues (t : Table κ α) (f : α → α) (k : κ) :
    (t.mapValues f).get? k = (t.get? k).map f := by
  simp only [get?, mapValues, List.find?_map, Option.map_map]
  rfl

end Table

end RowReplay
