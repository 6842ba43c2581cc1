import RowReplay.Proofs.Config.Overlay

/-!
The sources of a configuration: built-in settings, files and variables, each of them a source with
sections. What is loaded is read from all of them laid over one another.
-/
namespace RowReplay

open Setting

namespace Setting

variable {o : Origin} {name : String} {s : Setting} {l members : List (String × Setting)}

theorem distinctNames_nil : DistinctNames [] := List.nodup_nil

theorem sectioned_empty (o : Origin) : Sectioned (.group o []) :=
  ⟨o, [], rfl, distinctNames_nil, by simp⟩

/-- Of members with one name the last is kept, and every value is that of a node. -/
theorem ofMembers?_spec (o : Origin) (nodes : List (Yaml.Node × Yaml.Node)) (hl : DistinctNames l)
    (hseen : ∀ name s, l.lookup name = some s → ∃ node, ofNode? o node = some s)
    (h : ofMembers? o l nodes = some members) :
    DistinctNames members ∧
      ∀ name s, members.lookup name = some s → ∃ node, ofNode? o node = some s := by
  induction nodes generalizing l with
  | nil =>
    obtain rfl := Option.some.inj h
    exact ⟨hl, hseen⟩
  | cons m nodes ih =>
    obtain ⟨key, node⟩ := m
    cases key with
    | scalar tag style name =>
      simp only [ofMembers?] at h
      cases hnode : ofNode? o node with
      | none => simp [hnode] at h
      | some s =>
        rw [hnode] at h
        refine ih hl.setMember (fun other t ht => ?_) h
        rw [lookup_setMember] at ht
        split at ht
        · exact ⟨node, hnode.trans ht⟩
        · exact hseen other t ht
    | sequence => simp [ofMembers?] at h
    | mapping => simp [ofMembers?] at h
    | named => simp [ofMembers?] at h
    | reference => simp [ofMembers?] at h

/-- No name stands twice in a group that a node holds. -/
theorem distinctNames_ofNode? {o' : Origin} {node : Yaml.Node}
    (h : ofNode? o node = some (.group o' members)) : DistinctNames members := by
  cases node with
  | scalar => simp [ofNode?] at h
  | sequence => simp [ofNode?] at h
  | named => simp [ofNode?] at h
  | reference => simp [ofNode?] at h
  | mapping nodes =>
    simp only [ofNode?, Option.map_eq_some_iff] at h
    obtain ⟨_, hmembers, heq⟩ := h
    obtain ⟨-, rfl⟩ := Setting.group.inj heq
    exact (ofMembers?_spec o nodes distinctNames_nil (by simp) hmembers).1

end Setting

namespace Config

/-- The sections of a file are groups where they are present. -/
def HasSections (s : Setting) : Prop :=
  ∀ name ∈ ["cache", "logging", "replay"], ∀ t ∈ s.member? name, t.isGroup = true

instance (s : Setting) : Decidable (HasSections s) := by
  unfold HasSections
  infer_instance

/-- A file holds no settings or those of a mapping. -/
theorem layerOfText_eq_settings {path text : String} {s : Setting}
    (h : layerOfText path text = .settings s) :
    s = .group (.file (shortPath path)) [] ∨
      ∃ nodes, Setting.ofNode? (.file (shortPath path)) (.mapping nodes) = some s := by
  unfold layerOfText at h
  dsimp only at h
  cases hdocument : Yaml.Document.ofText? text with
  | none =>
    rw [hdocument] at h
    contradiction
  | some document =>
    obtain ⟨root, line, column⟩ := document
    rw [hdocument] at h
    cases root with
    | none => exact .inl (Layer.settings.inj h).symm
    | some node =>
      cases node with
      | mapping nodes =>
        right
        cases hnode : Setting.ofNode? (.file (shortPath path)) (.mapping nodes) with
        | none => simp [hnode] at h
        | some t => exact ⟨nodes, by simpa [hnode] using h⟩
      | scalar tag style word =>
        left
        dsimp only at h
        split at h
        · simpa using h.symm
        · contradiction
      | sequence => simp at h
      | named => simp at h
      | reference => simp at h

/-- A file is a source. -/
theorem sectioned_layerOfText {path text : String} {s : Setting}
    (h : layerOfText path text = .settings s) (hs : HasSections s) : Sectioned s := by
  rcases layerOfText_eq_settings h with rfl | ⟨nodes, hnode⟩
  · exact sectioned_empty _
  · simp only [Setting.ofNode?, Option.map_eq_some_iff] at hnode
    obtain ⟨members, hmembers, rfl⟩ := hnode
    obtain ⟨hdistinct, hvalues⟩ := ofMembers?_spec _ nodes distinctNames_nil (by simp) hmembers
    refine ⟨_, members, rfl, hdistinct, fun name hn t ht => ?_⟩
    have hgroup := hs name hn t ht
    obtain ⟨node, hnode⟩ := hvalues name t ht
    cases t with
    | value => contradiction
    | list => contradiction
    | group o fields => exact ⟨o, fields, rfl, distinctNames_ofNode? hnode⟩

end Config

namespace Environment

/-- The variables as sources, in the order of their names. -/
def sources (environment : List (String × String)) : List Setting :=
  (environment.mergeSort fun a b => a.1 ≤ b.1).filterMap fun v =>
    (path? v.1).map (nested (settingOfText v.2))

theorem settings_eq_foldl (environment : List (String × String)) :
    settings environment =
      (sources environment).foldl Setting.overlay (.group .environment []) := by
  unfold settings sources
  rw [List.foldl_filterMap]
  dsimp only
  congr 1
  funext s v
  cases path? v.1 <;> rfl

/-- Every variable names a field of a section. -/
def NameFields (environment : List (String × String)) : Prop :=
  ∀ v ∈ environment, ∀ path ∈ path? v.1, path.length = 2

instance (environment : List (String × String)) : Decidable (NameFields environment) := by
  unfold NameFields
  infer_instance

/-- Variables are sources. -/
theorem sectioned_of_mem_sources {environment : List (String × String)} {s : Setting}
    (h : NameFields environment) (hs : s ∈ sources environment) : Sectioned s := by
  unfold sources at hs
  rw [List.mem_filterMap] at hs
  obtain ⟨v, hmem, hpath⟩ := hs
  rw [List.mem_mergeSort] at hmem
  rw [Option.map_eq_some_iff] at hpath
  obtain ⟨path, hpath, rfl⟩ := hpath
  obtain ⟨group, field, rfl⟩ := List.length_eq_two.mp (h v hmem path hpath)
  refine ⟨.environment, _, rfl, List.nodup_singleton _, fun other _ t ht => ?_⟩
  rw [lookup_cons] at ht
  split at ht
  · obtain rfl := Option.some.inj ht
    exact ⟨.environment, _, rfl, List.nodup_singleton _⟩
  · contradiction

end Environment

end RowReplay
