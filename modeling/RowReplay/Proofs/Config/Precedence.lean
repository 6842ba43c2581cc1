import RowReplay.Proofs.Config.Fields
import RowReplay.Proofs.Config.Sources

/-!
Which source a field of a loaded configuration comes from: the highest that mentions the field,
whatever the sources say about other fields. Only two mappings in place of a word are joined.
-/
namespace RowReplay

open Setting

namespace Setting

variable {settings upper : List Setting} {s t : Setting}

/-- The same with a second stack laid over the first. -/
theorem stacks_eq_top (h : (settings ++ upper).getLast? = some t)
    (hg : t.isGroup = true → ∀ s ∈ (settings ++ upper).dropLast, s.isGroup = false) :
    joined (stack settings) (stack upper) = some t := by
  rcases List.eq_nil_or_concat' upper with rfl | ⟨low, top, rfl⟩
  · rw [List.append_nil, List.getLast?_eq_some_iff] at h
    obtain ⟨low, rfl⟩ := h
    rw [List.append_nil, List.dropLast_concat] at hg
    exact stack_eq_top hg
  · rw [← List.append_assoc, List.getLast?_concat] at h
    obtain rfl := Option.some.inj h
    rw [← List.append_assoc, List.dropLast_concat] at hg
    rw [stack_eq_top fun ht s hs => hg ht s (List.mem_append_right _ hs), ← stack_concat]
    exact stack_eq_top fun ht s hs => hg ht s (List.mem_append_left _ hs)

theorem isGroup_stacks (h : (settings ++ upper).getLast? = some t) (ht : t.isGroup = true) :
    ∃ s, joined (stack settings) (stack upper) = some s ∧ s.isGroup = true := by
  rcases List.eq_nil_or_concat' upper with rfl | ⟨low, top, rfl⟩
  · rw [List.append_nil, List.getLast?_eq_some_iff] at h
    obtain ⟨low, rfl⟩ := h
    exact isGroup_stack low ht
  · rw [← List.append_assoc, List.getLast?_concat] at h
    obtain rfl := Option.some.inj h
    obtain ⟨s, hs, hgroup⟩ := isGroup_stack low ht
    rw [hs, ← stack_concat]
    exact isGroup_stack settings hgroup

end Setting

namespace Config

/-- The files that are read. -/
def sourcePaths : Option String → List String
  | none => standardPaths
  | some path => [path]

/-- The sources that are files, the lowest first. -/
def fileSources (files : Files) (file : Option String) : List Setting :=
  (layers files (sourcePaths file)).filterMap settings?

namespace Field

/-- What sources say about a field. -/
def said (f : Field) (sources : List Setting) : List Setting :=
  sources.filterMap (at? f.group f.name)

/-- What is said about a field when no variable is set, the lowest source first. -/
def filed (f : Field) (files : Files) (file : Option String) : List Setting :=
  f.said (ofConfig Config.default :: fileSources files file)

/-- What all sources say about a field, the lowest first: what holds when nothing is said, the
files, the variables. -/
def mentions (f : Field) (files : Files) (environment : List (String × String))
    (file : Option String) : List Setting :=
  f.filed files file ++ f.said (Environment.sources environment)

/-- What the sources come to: the variables by themselves, over all that is below them. -/
def joint (f : Field) (files : Files) (environment : List (String × String))
    (file : Option String) : Option Setting :=
  joined (stack (f.filed files file)) (stack (f.said (Environment.sources environment)))

end Field

variable {files : Files} {environment : List (String × String)} {file : Option String} {c : Config}

theorem sectioned_ofConfig (c : Config) : Sectioned (ofConfig c) := by
  refine ⟨.builtIn, _, rfl, by simp [DistinctNames], ?_⟩
  intro name hname t ht
  simp only [List.mem_cons, List.not_mem_nil, or_false] at hname
  rcases hname with rfl | rfl | rfl <;>
  · obtain rfl := Option.some.inj ht
    exact ⟨.builtIn, _, rfl, by simp [DistinctNames]⟩

theorem sectioned_fileSources (h : ∀ s ∈ fileSources files file, HasSections s) :
    ∀ s ∈ fileSources files file, Sectioned s := by
  intro s hs
  have hmem := hs
  unfold fileSources layers at hmem
  simp only [List.mem_filterMap, Option.map_eq_some_iff] at hmem
  obtain ⟨layer, ⟨path, -, text, -, rfl⟩, hlayer⟩ := hmem
  have hsettings : layerOfText path text = .settings s := by
    cases hl : layerOfText path text with
    | settings t =>
      rw [hl] at hlayer
      exact congrArg Layer.settings (Option.some.inj hlayer)
    | malformed =>
      rw [hl] at hlayer
      contradiction
    | problem =>
      rw [hl] at hlayer
      contradiction
  exact sectioned_layerOfText hsettings (h s hs)

/-- What is loaded is read from all sources laid over one another, and can be run. -/
theorem load_eq_ok (h : load files environment file = .ok c) :
    c.IsValid ∧ readConfig ((fileSources files file ++ [Environment.settings environment]).foldl
      Setting.overlay (ofConfig Config.default)) = .ok c := by
  obtain ⟨introduction, hload⟩ : ∃ introduction,
      loadLayers introduction (layers files (sourcePaths file)) environment = .ok c := by
    cases file with
    | none => exact ⟨_, h⟩
    | some path => exact ⟨_, h⟩
  unfold loadLayers at hload
  split at hload
  · contradiction
  · split at hload
    · dsimp only at hload
      split at hload
      · contradiction
      · next config hread =>
        split at hload
        · contradiction
        · next hvalid =>
          obtain rfl := Except.ok.inj hload
          exact ⟨hvalid, hread⟩
    · contradiction

/-- A field of all sources laid over one another is what the sources come to. -/
theorem at?_sources (f : Field) (hfiles : ∀ s ∈ fileSources files file, HasSections s)
    (henvironment : Environment.NameFields environment) :
    Sectioned ((fileSources files file ++ [Environment.settings environment]).foldl
      Setting.overlay (ofConfig Config.default)) ∧
    ((fileSources files file ++ [Environment.settings environment]).foldl
      Setting.overlay (ofConfig Config.default)).at? f.group f.name =
        f.joint files environment file := by
  have hvariables := fun s => Environment.sectioned_of_mem_sources (s := s) henvironment
  have hsettings : Sectioned (Environment.settings environment) := by
    rw [Environment.settings_eq_foldl]
    exact (sectioned_empty _).foldl_overlay hvariables
  have hstack : (Environment.settings environment).at? f.group f.name =
      stack (f.said (Environment.sources environment)) := by
    rw [Environment.settings_eq_foldl,
      at?_foldl_overlay (sectioned_empty _) hvariables f.group_mem]
    rfl
  have hbelow : ((fileSources files file).foldl Setting.overlay (ofConfig Config.default)).at?
      f.group f.name = stack (f.filed files file) := by
    rw [at?_foldl_overlay (sectioned_ofConfig _) (sectioned_fileSources hfiles) f.group_mem]
    unfold Field.filed Field.said stack
    rw [List.filterMap_cons]
    cases at? f.group f.name (ofConfig Config.default) <;> rfl
  have hsectioned := (sectioned_ofConfig Config.default).foldl_overlay
    (sectioned_fileSources hfiles)
  rw [List.foldl_concat]
  refine ⟨hsectioned.overlay hsettings, ?_⟩
  rw [at?_overlay hsectioned hsettings f.group_mem, hbelow, hstack]
  rfl

/-- Something holds about every field when nothing is said. -/
theorem Field.mentions_ne_nil (f : Field) (files : Files) (environment : List (String × String))
    (file : Option String) : f.mentions files environment file ≠ [] := by
  obtain ⟨s, hs⟩ : ∃ s, at? f.group f.name (ofConfig Config.default) = some s := by
    cases f <;> exact ⟨_, rfl⟩
  unfold mentions filed said
  rw [List.filterMap_cons, hs]
  simp

/-- Every field has the value of the highest source that mentions it, and can be run. The value is
that of all that is said about the field; these come to the highest, unless that is a mapping in
place of a word and a lower source has a mapping there, too. -/
theorem load_precedence (h : load files environment file = .ok c)
    (hfiles : ∀ s ∈ fileSources files file, HasSections s)
    (henvironment : Environment.NameFields environment) :
    c.IsValid ∧ ∀ f : Field, ∃ top m,
      (f.mentions files environment file).getLast? = some top ∧
      f.joint files environment file = some m ∧ f.Reads m (f.get c) ∧
      ((f.IsChoice → top.isGroup = true →
        ∀ s ∈ (f.mentions files environment file).dropLast, s.isGroup = false) → m = top) := by
  obtain ⟨hvalid, hread⟩ := load_eq_ok h
  refine ⟨hvalid, fun f => ?_⟩
  obtain ⟨hsectioned, hat⟩ := at?_sources f hfiles henvironment
  obtain ⟨top, htop⟩ := Option.ne_none_iff_exists'.mp fun hnone =>
    f.mentions_ne_nil files environment file (List.getLast?_eq_none_iff.mp hnone)
  obtain ⟨m, hm⟩ : ∃ m, f.joint files environment file = some m := by
    cases hgroup : top.isGroup with
    | true =>
      obtain ⟨m, hm, -⟩ := isGroup_stacks htop hgroup
      exact ⟨m, hm⟩
    | false => exact ⟨top, stacks_eq_top htop fun htrue => by simp [hgroup] at htrue⟩
  have hreads := f.reads_get hread hsectioned (hat.trans hm)
  refine ⟨top, m, htop, hm, hreads, fun hchoice => ?_⟩
  refine Option.some.inj (hm.symm.trans (stacks_eq_top htop fun hgroup => ?_))
  obtain ⟨s, hs, hsgroup⟩ := isGroup_stacks htop hgroup
  obtain rfl := Option.some.inj (hm.symm.trans hs)
  exact hchoice (Field.isChoice_of_reads hreads hsgroup) hgroup

/-- Two files that set the time to live, the first of which sets another field, too. -/
def layeredFiles : Files :=
  [(".rowcache/config.yaml", "cache:\n  ttl_secs: 10\n  refresh_ahead: 0.25\n"),
    (".rowcache/local.yaml", "cache:\n  ttl_secs: 20\n")]

def layeredVariables : List (String × String) := [("ROWCACHE_REPLAY__PUT_TIMEOUT_MS", "5")]

theorem exists_ok_of_toOption {α : Type} {x : Except LoadFailure Config} {g : Config → α} {a : α}
    (h : x.toOption.map g = some a) : ∃ c, x = .ok c ∧ g c = a := by
  cases x with
  | error e => contradiction
  | ok c => exact ⟨c, rfl, Option.some.inj h⟩

theorem load_precedence_sample : ∃ c,
    load layeredFiles layeredVariables none = .ok c ∧ c.cache.ttlSeconds = 20 ∧
    c.replay.putTimeoutMillis = 5 ∧ c.IsValid ∧
    ∃ top, (Field.ttl.mentions layeredFiles layeredVariables none).getLast? = some top ∧
      Field.ttl.Reads top (Field.ttl.get c) := by
  obtain ⟨c, hload, hvalues⟩ := exists_ok_of_toOption
    (g := fun c => (c.cache.ttlSeconds, c.replay.putTimeoutMillis)) (a := (20, 5))
    (x := load layeredFiles layeredVariables none) (by decide +kernel)
  obtain ⟨httl, hput⟩ := Prod.mk.inj hvalues
  obtain ⟨hvalid, hfields⟩ := load_precedence hload (by decide +kernel) (by decide +kernel)
  obtain ⟨top, m, htop, -, hreads, hm⟩ := hfields .ttl
  obtain rfl := hm fun hchoice => by rcases hchoice with h | h <;> contradiction
  exact ⟨c, hload, httl, hput, hvalid, m, htop, hreads⟩

/-- Two files that name the format of log lines by a mapping. -/
def formatFiles : Files :=
  [(".rowcache/config.yaml", "logging:\n  format:\n    json: null\n"),
    (".rowcache/local.yaml", "logging:\n  format:\n    pretty: null\n")]

/-- The highest source does not always decide: the mappings of both files are joined, and the least
name of the two is taken. -/
theorem highest_not_read : ∃ c top, load formatFiles [] none = .ok c ∧
    (∀ s ∈ fileSources formatFiles none, HasSections s) ∧
    (Field.format.mentions formatFiles [] none).getLast? = some top ∧
    Field.format.Reads top .pretty ∧ Field.format.get c = .json := by
  obtain ⟨c, hload, hformat⟩ := exists_ok_of_toOption (g := fun c => c.logging.format)
    (a := .json) (x := load formatFiles [] none) (by decide +kernel)
  obtain ⟨top, htop, hreads⟩ : ∃ top ∈ (Field.format.mentions formatFiles [] none).getLast?,
      Field.format.Reads top .pretty := by
    decide +kernel
  exact ⟨c, top, hload, by decide +kernel, htop, hreads, hformat⟩

end Config

end RowReplay
