import Mathlib.Data.List.Induction
import Mathlib.Data.List.Nodup
import RowReplay.Config.Layers

/-!
Settings laid over one another, looked up by section and field. A field is found in a stack of
sources as the fields of the sources stacked by themselves, whatever else the sources say.
-/
namespace RowReplay.Setting

variable {o : Origin} {name key : String} {s t lower upper : Setting}
  {l members fields : List (String × Setting)}

def isGroup : Setting → Bool
  | .group .. => true
  | _ => false

/-- The member of a group with this name. -/
def member? (name : String) : Setting → Option Setting
  | .group _ members => members.lookup name
  | _ => none

/-- What a source says about a field of a section. -/
def at? (group field : String) (s : Setting) : Option Setting :=
  (s.member? group).bind (member? field)

/-- No name stands twice. -/
def DistinctNames (members : List (String × Setting)) : Prop := (members.map Prod.fst).Nodup

theorem lookup_cons (key name : String) (s : Setting) (l : List (String × Setting)) :
    ((name, s) :: l).lookup key = if key = name then some s else l.lookup key := by
  rw [List.lookup_cons]
  by_cases h : key = name
  · simp [h]
  · simp [h, beq_eq_false_iff_ne.mpr h]

theorem lookup_setMember (name key : String) (s : Setting) (l : List (String × Setting)) :
    (setMember name s l).lookup key = if key = name then some s else l.lookup key := by
  induction l with
  | nil => rw [setMember, lookup_cons]
  | cons m l ih =>
    obtain ⟨other, old⟩ := m
    unfold setMember
    split
    case isTrue h =>
      subst h
      rw [lookup_cons, lookup_cons]
      split <;> rfl
    case isFalse h =>
      rw [lookup_cons, lookup_cons, ih]
      by_cases hk : key = other
      · rw [if_pos hk, if_pos hk, if_neg (hk ▸ h)]
      · rw [if_neg hk, if_neg hk]

theorem names_setMember (name : String) (s : Setting) (l : List (String × Setting)) :
    (setMember name s l).map Prod.fst =
      if name ∈ l.map Prod.fst then l.map Prod.fst else l.map Prod.fst ++ [name] := by
  induction l with
  | nil => rfl
  | cons m l ih =>
    obtain ⟨other, old⟩ := m
    unfold setMember
    split
    case isTrue h => simp [h]
    case isFalse h =>
      have hne : name ≠ other := fun heq => h heq.symm
      simp only [List.map_cons, ih, List.mem_cons, hne, false_or]
      split <;> simp

theorem DistinctNames.setMember (h : DistinctNames l) : DistinctNames (setMember name s l) := by
  unfold DistinctNames at h ⊢
  rw [names_setMember]
  split
  · exact h
  · next hnot =>
    rw [List.nodup_append]
    refine ⟨h, List.nodup_singleton _, ?_⟩
    rintro other hother _ hname rfl
    rw [List.mem_singleton.mp hname] at hother
    exact hnot hother

/-- What two sources say together about a field: the upper one is laid over the lower one. -/
def joined : Option Setting → Option Setting → Option Setting
  | lower, none => lower
  | none, some upper => some upper
  | some lower, some upper => some (overlay lower upper)

@[simp] theorem joined_none (a : Option Setting) : joined a none = a := by cases a <;> rfl

@[simp] theorem none_joined (a : Option Setting) : joined none a = a := by cases a <;> rfl

theorem overlay_of_not_group (lower : Setting) (h : upper.isGroup = false) :
    overlay lower upper = upper := by
  cases upper with
  | value => rfl
  | list => rfl
  | group => contradiction

theorem overlay_onto_not_group (upper : Setting) (h : lower.isGroup = false) :
    overlay lower upper = upper := by
  cases upper with
  | value => rfl
  | list => rfl
  | group =>
    cases lower with
    | value => rfl
    | list => rfl
    | group => contradiction

theorem isGroup_overlay (lower : Setting) (h : upper.isGroup = true) :
    (overlay lower upper).isGroup = true := by
  cases upper with
  | value => contradiction
  | list => contradiction
  | group => cases lower <;> rfl

theorem DistinctNames.membersOver (h : DistinctNames l) :
    ∀ members, DistinctNames (membersOver l members) := by
  intro members
  induction members generalizing l with
  | nil => exact h
  | cons m members ih => exact ih h.setMember

theorem lookup_eq_none (h : key ∉ l.map Prod.fst) : l.lookup key = none := by
  induction l with
  | nil => rfl
  | cons m l ih =>
    obtain ⟨name, s⟩ := m
    rw [List.map_cons, List.mem_cons, not_or] at h
    rw [lookup_cons, if_neg h.1, ih h.2]

/-- Members laid over others are joined name by name. -/
theorem lookup_membersOver (l : List (String × Setting)) (h : DistinctNames members)
    (key : String) :
    (membersOver l members).lookup key = joined (l.lookup key) (members.lookup key) := by
  induction members generalizing l with
  | nil => simp [membersOver]
  | cons m members ih =>
    obtain ⟨name, upper⟩ := m
    obtain ⟨hnot, hrest⟩ := List.nodup_cons.mp h
    unfold membersOver
    rw [ih _ hrest, lookup_setMember, lookup_cons]
    by_cases hk : key = name
    · subst hk
      rw [if_pos rfl, if_pos rfl, lookup_eq_none hnot, joined_none]
      cases l.lookup key <;> rfl
    · rw [if_neg hk, if_neg hk]

/-- A source: a group, and so are its sections. No name stands twice in any of them. -/
def Sectioned (s : Setting) : Prop :=
  ∃ o members, s = .group o members ∧ DistinctNames members ∧
    ∀ name ∈ ["cache", "logging", "replay"], ∀ t, members.lookup name = some t →
      ∃ o fields, t = .group o fields ∧ DistinctNames fields

theorem Sectioned.member? (h : Sectioned s) (hn : name ∈ ["cache", "logging", "replay"])
    (ht : s.member? name = some t) : ∃ o fields, t = .group o fields ∧ DistinctNames fields := by
  obtain ⟨o, members, rfl, -, hsections⟩ := h
  exact hsections name hn t ht

theorem member?_overlay_group (o o' : Origin) (l : List (String × Setting))
    (h : DistinctNames members) (key : String) :
    (overlay (.group o l) (.group o' members)).member? key =
      joined (l.lookup key) (members.lookup key) :=
  lookup_membersOver l h key

theorem Sectioned.overlay (hl : Sectioned lower) (hu : Sectioned upper) :
    Sectioned (overlay lower upper) := by
  obtain ⟨o, l, rfl, hdl, hsl⟩ := hl
  obtain ⟨o', u, rfl, hdu, hsu⟩ := hu
  refine ⟨o', Setting.membersOver l u, rfl, hdl.membersOver u, ?_⟩
  intro name hn t ht
  rw [lookup_membersOver l hdu] at ht
  cases hll : l.lookup name with
  | none =>
    rw [hll, none_joined] at ht
    exact hsu name hn t ht
  | some tl =>
    obtain ⟨ol, fl, rfl, hfl⟩ := hsl name hn tl hll
    rw [hll] at ht
    cases huu : u.lookup name with
    | none =>
      rw [huu, joined_none] at ht
      obtain rfl := Option.some.inj ht
      exact ⟨ol, fl, rfl, hfl⟩
    | some tu =>
      obtain ⟨ou, fu, rfl, -⟩ := hsu name hn tu huu
      rw [huu] at ht
      obtain rfl := Option.some.inj ht
      exact ⟨ou, Setting.membersOver fl fu, rfl, hfl.membersOver fu⟩

/-- A field of two sources is what they say about it together. -/
theorem at?_overlay (hl : Sectioned lower) (hu : Sectioned upper)
    (hn : name ∈ ["cache", "logging", "replay"]) (field : String) :
    (overlay lower upper).at? name field =
      joined (lower.at? name field) (upper.at? name field) := by
  have hsection : (Setting.overlay lower upper).member? name =
      joined (lower.member? name) (upper.member? name) := by
    obtain ⟨o, l, rfl, -, -⟩ := hl
    obtain ⟨o', u, rfl, hdu, -⟩ := hu
    exact member?_overlay_group o o' l hdu name
  unfold at?
  rw [hsection]
  cases hll : lower.member? name with
  | none => simp
  | some tl =>
    obtain ⟨ol, fl, rfl, -⟩ := hl.member? hn hll
    cases huu : upper.member? name with
    | none => simp
    | some tu =>
      obtain ⟨ou, fu, rfl, hfu⟩ := hu.member? hn huu
      exact member?_overlay_group ol ou fl hfu field

/-- Settings stacked, the lowest first. -/
def stack (settings : List Setting) : Option Setting :=
  settings.foldl (fun low s => joined low (some s)) none

theorem stack_concat (settings : List Setting) (s : Setting) :
    stack (settings ++ [s]) = joined (stack settings) (some s) := by
  simp [stack]

theorem Sectioned.foldl_overlay {sources : List Setting} (hs : Sectioned s)
    (h : ∀ t ∈ sources, Sectioned t) : Sectioned (sources.foldl Setting.overlay s) := by
  induction sources generalizing s with
  | nil => exact hs
  | cons t sources ih =>
    rw [List.forall_mem_cons] at h
    exact ih (hs.overlay h.1) h.2

/-- A field of stacked sources is what they say about it, stacked. -/
theorem at?_foldl_overlay {sources : List Setting} (hs : Sectioned s)
    (h : ∀ t ∈ sources, Sectioned t) (hn : name ∈ ["cache", "logging", "replay"]) (field : String) :
    (sources.foldl Setting.overlay s).at? name field =
      (sources.filterMap (at? name field)).foldl (fun low t => joined low (some t))
        (s.at? name field) := by
  induction sources generalizing s with
  | nil => rfl
  | cons t sources ih =>
    rw [List.forall_mem_cons] at h
    rw [List.foldl_cons, ih (hs.overlay h.1) h.2, at?_overlay hs h.1 hn, List.filterMap_cons]
    cases t.at? name field <;> simp

/-- Only a group makes a stack of settings a group. -/
theorem not_isGroup_stack {settings : List Setting} (h : ∀ t ∈ settings, t.isGroup = false)
    (hs : stack settings = some s) : s.isGroup = false := by
  induction settings using List.reverseRecOn generalizing s with
  | nil => contradiction
  | append_singleton settings t ih =>
    have ht := h t (by simp)
    rw [stack_concat] at hs
    cases hlow : stack settings with
    | none =>
      rw [hlow, none_joined] at hs
      exact Option.some.inj hs ▸ ht
    | some low =>
      rw [hlow] at hs
      rw [← Option.some.inj hs, overlay_of_not_group low ht]
      exact ht

/-- The highest setting is what a stack comes to, unless it is a group and so is another. -/
theorem stack_eq_top {settings : List Setting}
    (h : t.isGroup = true → ∀ s ∈ settings, s.isGroup = false) :
    stack (settings ++ [t]) = some t := by
  rw [stack_concat]
  cases hlow : stack settings with
  | none => rfl
  | some low =>
    cases ht : t.isGroup with
    | false => exact congrArg some (overlay_of_not_group low ht)
    | true => exact congrArg some (overlay_onto_not_group t (not_isGroup_stack (h ht) hlow))

/-- A group at the top makes a group. -/
theorem isGroup_stack (settings : List Setting) (h : t.isGroup = true) :
    ∃ s, stack (settings ++ [t]) = some s ∧ s.isGroup = true := by
  rw [stack_concat]
  cases stack settings with
  | none => exact ⟨t, rfl, h⟩
  | some low => exact ⟨_, rfl, isGroup_overlay low h⟩

end RowReplay.Setting
