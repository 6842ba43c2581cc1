import RowReplay.Command.Run
import RowReplay.Proofs.Config.Precedence
import RowReplay.Proofs.Config.Printing

/-!
Saving a configuration that is shown. As a configuration file its text is loaded as the same
configuration, unless variables set something else.
-/
namespace RowReplay

open Setting Yaml

namespace Setting

variable {α : Type} {a fallback : α} {read : Reading α} {name : String} {place : Nat}
  {path : List String} {s m : Setting}

/-- A member that is there is read. -/
theorem readField_eq (hm : s.member? name = some m) (h : read (path ++ [name]) m = .ok a) :
    readField read fallback name place path s = .ok a := by
  cases s with
  | value => contradiction
  | list => contradiction
  | group o members =>
    have hm : members.lookup name = some m := hm
    simp only [readField, hm, h]

theorem isGroup_of_member? (hm : s.member? name = some m) : s.isGroup = true := by
  cases s with
  | group => rfl
  | value => contradiction
  | list => contradiction

end Setting

namespace Config

variable {c : Config} {s t : Setting} {path : List String}

theorem readCache_of_reads
    (h : ∀ f : Field, f.group = "cache" → ∃ m, t.member? f.name = some m ∧ f.Reads m (f.get c)) :
    readCache ["cache"] t = .ok c.cache := by
  obtain ⟨_, httl, hreadTtl⟩ := h .ttl rfl
  obtain ⟨_, hahead, hreadAhead⟩ := h .refreshAhead rfl
  unfold readCache
  rw [readSection_of_isGroup _ _ _ (isGroup_of_member? httl)]
  simp only [if_true, bind_eq_ok]
  exact ⟨_, readField_eq hahead hreadAhead, _, readField_eq httl hreadTtl, rfl⟩

theorem readReplay_of_reads
    (h : ∀ f : Field, f.group = "replay" → ∃ m, t.member? f.name = some m ∧ f.Reads m (f.get c)) :
    readReplay ["replay"] t = .ok c.replay := by
  obtain ⟨_, hready, hreadReady⟩ := h .readyTimeout rfl
  obtain ⟨_, hput, hreadPut⟩ := h .putTimeout rfl
  obtain ⟨_, hmost, hreadMost⟩ := h .maxPutAttempts rfl
  unfold readReplay
  rw [readSection_of_isGroup _ _ _ (isGroup_of_member? hready)]
  simp only [if_true, bind_eq_ok]
  exact ⟨_, readField_eq hmost hreadMost, _, readField_eq hput hreadPut, _,
    readField_eq hready hreadReady, rfl⟩

theorem readLogging_of_reads
    (h : ∀ f : Field, f.group = "logging" → ∃ m, t.member? f.name = some m ∧ f.Reads m (f.get c)) :
    readLogging ["logging"] t = .ok c.logging := by
  obtain ⟨_, hlevel, hreadLevel⟩ := h .level rfl
  obtain ⟨_, hformat, hreadFormat⟩ := h .format rfl
  obtain ⟨_, hdirectory, hreadDirectory⟩ := h .directory rfl
  obtain ⟨_, hconsole, hreadConsole⟩ := h .console rfl
  obtain ⟨_, hrotation, hreadRotation⟩ := h .rotation rfl
  unfold readLogging
  rw [readSection_of_isGroup _ _ _ (isGroup_of_member? hlevel)]
  simp only [if_true, bind_eq_ok]
  exact ⟨_, readField_eq hconsole hreadConsole, _, readField_eq hformat hreadFormat, _,
    readField_eq hlevel hreadLevel, _, readField_eq hdirectory hreadDirectory, _,
    readField_eq hrotation hreadRotation, rfl⟩

/-- If every field reads as it is in a configuration, the configuration is read. -/
theorem readConfig_of_reads
    (h : ∀ f : Field, ∃ m, s.at? f.group f.name = some m ∧ f.Reads m (f.get c)) :
    readConfig s = .ok c := by
  have hsection (f : Field) : ∃ t, s.member? f.group = some t := by
    obtain ⟨m, hm, -⟩ := h f
    obtain ⟨t, ht, -⟩ := Option.bind_eq_some_iff.mp hm
    exact ⟨t, ht⟩
  have hfield {t : Setting} {group : String} (ht : s.member? group = some t) (f : Field)
      (hf : f.group = group) : ∃ m, t.member? f.name = some m ∧ f.Reads m (f.get c) := by
    obtain ⟨m, hm, hreads⟩ := h f
    rw [at?, hf, ht] at hm
    exact ⟨m, hm, hreads⟩
  obtain ⟨_, hcache⟩ := hsection .ttl
  obtain ⟨_, hreplay⟩ := hsection .readyTimeout
  obtain ⟨_, hlogging⟩ := hsection .level
  unfold readConfig
  simp only [bind_eq_ok]
  exact ⟨_, readField_eq hcache (readCache_of_reads (hfield hcache)), _,
    readField_eq hlogging (readLogging_of_reads (hfield hlogging)), _,
    readField_eq hreplay (readReplay_of_reads (hfield hreplay)), rfl⟩

end Config

namespace Environment

/-- No variable sets anything in a section. -/
def NamesNoSection (environment : List (String × String)) : Prop :=
  ∀ v ∈ environment, ∀ path ∈ path? v.1, ∃ name ∈ path.head?, name ∉ ["cache", "logging", "replay"]

instance (environment : List (String × String)) : Decidable (NamesNoSection environment) := by
  unfold NamesNoSection
  infer_instance

/-- A source that sets something else has no sections. -/
theorem member?_source {environment : List (String × String)} (h : NamesNoSection environment)
    {s : Setting} (hs : s ∈ sources environment) :
    Sectioned s ∧ ∀ name ∈ ["cache", "logging", "replay"], s.member? name = none := by
  unfold sources at hs
  rw [List.mem_filterMap] at hs
  obtain ⟨v, hmem, hpath⟩ := hs
  rw [List.mem_mergeSort] at hmem
  rw [Option.map_eq_some_iff] at hpath
  obtain ⟨path, hpath, rfl⟩ := hpath
  obtain ⟨part, hpart, hnot⟩ := h v hmem path hpath
  cases path with
  | nil => contradiction
  | cons first rest =>
    obtain rfl := Option.some.inj hpart
    have hnone : ∀ name ∈ ["cache", "logging", "replay"],
        (nested (settingOfText v.2) (first :: rest)).member? name = none := by
      intro name hname
      have hne : name ≠ first := by
        rintro rfl
        exact hnot hname
      exact (lookup_cons name first _ []).trans (if_neg hne)
    refine ⟨⟨.environment, _, rfl, List.nodup_singleton _, fun name hname t ht => ?_⟩, hnone⟩
    exact absurd ((hnone name hname).symm.trans ht) nofun

/-- Such variables say nothing about any field. -/
theorem at?_settings {environment : List (String × String)} (h : NamesNoSection environment) :
    Sectioned (settings environment) ∧ ∀ f : Config.Field,
      (settings environment).at? f.group f.name = none := by
  have hsectioned : ∀ s ∈ sources environment, Sectioned s := fun s hs => (member?_source h hs).1
  rw [settings_eq_foldl]
  refine ⟨(sectioned_empty _).foldl_overlay hsectioned, fun f => ?_⟩
  rw [at?_foldl_overlay (sectioned_empty _) hsectioned f.group_mem]
  have hnone : (sources environment).filterMap (at? f.group f.name) = [] := by
    rw [List.filterMap_eq_nil_iff]
    intro s hs
    rw [at?, (member?_source h hs).2 f.group f.group_mem]
    rfl
  rw [hnone]
  rfl

end Environment

namespace Config

variable {c : Config} {files : Files} {environment : List (String × String)} {s : Setting}

/-- If the only file says every field as it is in a configuration that can be run, and no variable
says anything, the configuration is loaded. -/
theorem loadLayers_of_reads {introduction : String} (hc : c.IsValid)
    (henvironment : Environment.NamesNoSection environment) (hs : Sectioned s)
    (h : ∀ f : Field, ∃ m, s.at? f.group f.name = some m ∧ m.isGroup = false ∧
      f.Reads m (f.get c)) :
    loadLayers introduction [.settings s] environment = .ok c := by
  obtain ⟨hvariables, hnone⟩ := Environment.at?_settings henvironment
  have hdefault := sectioned_ofConfig Config.default
  have hread : readConfig (((ofConfig Config.default).overlay s).overlay
      (Environment.settings environment)) = .ok c := by
    refine readConfig_of_reads fun f => ?_
    obtain ⟨m, hm, hgroup, hreads⟩ := h f
    refine ⟨m, ?_, hreads⟩
    rw [at?_overlay (hdefault.overlay hs) hvariables f.group_mem, hnone, joined_none,
      at?_overlay hdefault hs f.group_mem, hm]
    cases (ofConfig Config.default).at? f.group f.name with
    | none => rfl
    | some low => exact congrArg some (overlay_of_not_group low hgroup)
  have hvalid : c.flaw? = none := hc
  have hproblems : [Layer.settings s].filterMap problem? = [] := rfl
  have hsettings : [Layer.settings s].filterMap settings? = [s] := rfl
  simp [loadLayers, isMalformed, hproblems, hsettings, hread, hvalid]

/-- The settings of a file that holds every field. -/
def savedSetting (o : Origin) (v : Field → SettingValue) : Setting :=
  .group o (sections.map fun (name, fields) =>
    (name, .group o (fields.map fun f => (f.name, .value o (v f)))))

theorem sectioned_savedSetting (o : Origin) (v : Field → SettingValue) :
    Sectioned (savedSetting o v) := by
  refine ⟨o, _, rfl, by simp [DistinctNames, sections], fun name hname t ht => ?_⟩
  simp only [List.mem_cons, List.not_mem_nil, or_false] at hname
  rcases hname with rfl | rfl | rfl <;>
  · obtain rfl := Option.some.inj ht
    exact ⟨o, _, rfl, by simp [DistinctNames, Field.name]⟩

theorem at?_savedSetting (o : Origin) (v : Field → SettingValue) (f : Field) :
    (savedSetting o v).at? f.group f.name = some (.value o (v f)) := by
  cases f <;> rfl

theorem ofNode?_savedSetting {o : Origin} {node : Field → Node} {v : Field → SettingValue}
    (h : ∀ f, Setting.ofNode? o (node f) = some (.value o (v f))) :
    Setting.ofNode? o (.mapping (sectionNodes node)) = some (savedSetting o v) := by
  simp [Setting.ofNode?, Setting.ofMembers?, Setting.setMember, sectionNodes, sections,
    savedSetting, keyNode, Field.name, h]

/-- What is shown holds every field, as a text and as a file. -/
theorem saved_yaml (hc : c.IsValid) {rest : List Char} (hrest : Below 0 rest)
    (hprintable : Printable rest) :
    ofYaml? (String.ofList (c.yaml.toList ++ rest)) = some c ∧
      ∀ path, ∃ v : Field → SettingValue,
        layerOfText path (String.ofList (c.yaml.toList ++ rest)) =
            .settings (savedSetting (.file (shortPath path)) v) ∧
          ∀ f : Field, f.Reads (.value (.file (shortPath path)) (v f)) (f.get c) := by
  choose style word hwritten using fun f : Field => f.exists_isWrittenAs hc
  have hdocument := ofText?_yaml hwritten hrest hprintable
  refine ⟨?_, fun path => ?_⟩
  · rw [ofYaml?, hdocument]
    exact ofNode?_sectionNodes fun f => (hwritten f).isScalarOf.read_eq
  · choose v hnode hreads using fun f : Field =>
      (hwritten f).isScalarOf.readSetting_eq (.file (shortPath path))
    refine ⟨v, ?_, fun f => hreads f _⟩
    have hsettings := ofNode?_savedSetting hnode
    unfold layerOfText
    rw [hdocument]
    simp only [hsettings]
    rfl

/-- The only file that is there is the only layer. -/
theorem exists_layers_eq {paths : List String} {text : String}
    (h : paths.filterMap files.read? = [text]) :
    ∃ path, layers files paths = [layerOfText path text] := by
  induction paths with
  | nil => contradiction
  | cons path paths ih =>
    unfold layers at ih ⊢
    rw [List.filterMap_cons] at h ⊢
    cases hread : files.read? path with
    | none =>
      rw [hread] at h
      exact ih h
    | some other =>
      rw [hread] at h
      obtain ⟨rfl, hnil⟩ := List.cons.inj h
      have hrest :
          (paths.filterMap fun path => (files.read? path).map (layerOfText path)) = [] := by
        rw [List.filterMap_eq_nil_iff] at hnil ⊢
        exact fun p hp => by rw [hnil p hp]; rfl
      exact ⟨path, congrArg (layerOfText path other :: ·) hrest⟩

/-- What is shown of a configuration that can be run is that configuration, with the end of its last
line or without. It is read from the text, every field of it, and it is loaded if the only file that
is read holds the text and no variable sets anything. -/
theorem shown_config_loads (c : Config) (hc : c.IsValid) (now : Timestamp) :
    ∀ text ∈ [c.yaml, (Command.perform false c now .showConfig).output],
      ofYaml? text = some c ∧
      ∀ (files : Files) (environment : List (String × String)) (file : Option String),
        Environment.NamesNoSection environment → (sourcePaths file).filterMap files.read? = [text] →
          load files environment file = .ok c := by
  intro text htext
  obtain ⟨rest, hrest, hprintable, rfl⟩ : ∃ rest, Below 0 rest ∧ Printable rest ∧
      text = String.ofList (c.yaml.toList ++ rest) := by
    have houtput : (Command.perform false c now .showConfig).output = c.yaml ++ "\n" := rfl
    rw [houtput, List.mem_pair] at htext
    rcases htext with rfl | rfl
    · exact ⟨[], .nil, printable_nil, by simp⟩
    · exact ⟨['\n'], .newline .nil, by simp, by simp [String.ofList_append]⟩
  obtain ⟨hyaml, hlayer⟩ := saved_yaml hc hrest hprintable
  refine ⟨hyaml, fun files environment file henvironment hfiles => ?_⟩
  obtain ⟨path, hlayers⟩ := exists_layers_eq hfiles
  obtain ⟨v, hsettings, hreads⟩ := hlayer path
  rw [hsettings] at hlayers
  have hload (introduction : String) :
      loadLayers introduction (layers files (sourcePaths file)) environment = .ok c := by
    rw [hlayers]
    exact loadLayers_of_reads hc henvironment (sectioned_savedSetting _ v) fun f =>
      ⟨_, at?_savedSetting _ v f, rfl, hreads f⟩
  cases file with
  | none => exact hload _
  | some path => exact hload _

/-- A directory whose name has a blank first, looks like a comment and a key, and has several lines,
and a level in capital letters. -/
def shownConfig : Config :=
  { Config.default with
    logging := ⟨"WARN", .json, some " # 'logs': \"null\"\n\n~ ", false, .never⟩ }

theorem shown_config_loads_sample :
    shownConfig.IsValid ∧ ofYaml? shownConfig.yaml = some shownConfig ∧
      load [("saved.yaml", shownConfig.yaml)] [("ROWCACHE_CONFIG", "saved.yaml")]
        (some "saved.yaml") = .ok shownConfig := by
  have hvalid : shownConfig.IsValid := by decide +kernel
  obtain ⟨hyaml, hload⟩ := shown_config_loads shownConfig hvalid .epoch shownConfig.yaml
    List.mem_cons_self
  refine ⟨hvalid, hyaml, hload _ _ _ (by decide +kernel) ?_⟩
  simp [sourcePaths, Files.read?]

end Config

end RowReplay
