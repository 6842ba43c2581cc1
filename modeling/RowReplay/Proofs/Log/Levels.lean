import Mathlib
import RowReplay.Config.Validation
import RowReplay.Log.File

/-!
The words for levels of logging: settings can be run with just the levels that the log starts with,
and those are the five words with each letter small or capital. Of the characters beyond ASCII only
the Kelvin sign has a lower-case form within ASCII, and no word has a k.
-/
namespace RowReplay

namespace Text

variable {c l : Char} {cs word : List Char}

/-- The letter, small or capital. -/
def IsCase (c l : Char) : Prop := c = l ∨ c = l.toUpper

instance (c l : Char) : Decidable (IsCase c l) := inferInstanceAs (Decidable (_ ∨ _))

/-- The word, each of its letters small or capital. -/
def IsCasing (s word : String) : Prop := List.Forall₂ IsCase s.toList word.toList

instance (s word : String) : Decidable (IsCasing s word) :=
  inferInstanceAs (Decidable (List.Forall₂ ..))

theorem not_isUpper_of_isLower (h : l.isLower = true) : ¬l.isUpper = true := by
  simp only [Char.isLower, Char.isUpper, Bool.and_eq_true, decide_eq_true_eq] at h ⊢
  intro hupper
  exact absurd (UInt32.le_trans h.1 hupper.2) (by decide)

theorem toLower_eq_iff_isCase (h : l.isLower = true) : c.toLower = l ↔ IsCase c l := by
  constructor
  · rintro rfl
    by_cases hc : c.isUpper = true
    · have hlower : ¬c.isLower = true := fun hlower => not_isUpper_of_isLower hlower hc
      exact .inr (by rw [Char.toUpper_toLower_eq_toUpper, Char.toUpper_eq_of_not_isLower hlower])
    · exact .inl (Char.toLower_eq_of_not_isUpper hc).symm
  · have hl := Char.toLower_eq_of_not_isUpper (not_isUpper_of_isLower h)
    rintro (rfl | rfl)
    · exact hl
    · rw [Char.toLower_toUpper_eq_toLower, hl]

theorem toNat_lt_of_isLower (h : l.isLower = true) : l.toNat < 0x80 := by
  simp only [Char.isLower, Bool.and_eq_true, decide_eq_true_eq] at h
  exact Nat.lt_of_le_of_lt (UInt32.le_iff_toNat_le.mp h.2) (by decide)

theorem IsCase.toNat_lt (h : IsCase c l) (hl : l.isLower = true) : c.toNat < 0x80 := by
  have hlower := (toLower_eq_iff_isCase hl).mpr h
  by_cases hc : c.isUpper = true
  · simp only [Char.isUpper, decide_eq_true_eq] at hc
    exact Nat.lt_of_le_of_lt (UInt32.le_iff_toNat_le.mp hc.2) (by decide)
  · rw [Char.toLower_eq_of_not_isUpper hc] at hlower
    exact hlower ▸ toNat_lt_of_isLower hl

/-- No run but that of the Kelvin sign reaches into ASCII, and none the surrogates. -/
theorem caseRuns_apart : ∀ run ∈ caseRuns,
    (run.first = run.last ∧ run.lowerFirst = 'k'.toNat) ∨
    (0x80 ≤ run.lowerFirst ∧ (run.lowerFirst + (run.last - run.first) < 0xD800 ∨
      0xDFFF < run.lowerFirst ∧ run.lowerFirst + (run.last - run.first) < 0x110000)) := by
  decide +kernel

/-- The lower-case form of a character beyond ASCII is not made of other small letters than k. -/
theorem exists_mem_lowercaseChar (h : 0x80 ≤ c.toNat) :
    ∃ d ∈ lowercaseChar c, d = 'k' ∨ 0x80 ≤ d.toNat := by
  unfold lowercaseChar
  rw [if_neg (Nat.not_lt.mpr h)]
  split
  · exact ⟨Char.ofNat 0x307, by simp, .inr (by decide)⟩
  · split
    · next lower hlower =>
      refine ⟨_, List.mem_singleton_self _, ?_⟩
      obtain ⟨run, hrun, hfound⟩ := List.exists_of_findSome?_eq_some hlower
      obtain ⟨offset, hoffset, rfl⟩ := Option.map_eq_some_iff.mp hfound
      have hwithin : run.first ≤ c.toNat ∧ c.toNat ≤ run.last ∧ c.toNat - run.first = offset := by
        unfold CaseRun.offset? at hoffset
        grind
      rcases caseRuns_apart run hrun with ⟨hsingle, hk⟩ | ⟨hbeyond, hvalid⟩
      · left
        rw [hk, show offset = 0 by omega]
        rfl
      · right
        have hchar : (run.lowerFirst + offset).isValidChar := by
          unfold Nat.isValidChar
          omega
        rw [Char.toNat_ofNat, if_pos hchar]
        omega
    · exact ⟨c, List.mem_singleton_self c, .inr h⟩

theorem lowercaseAt_of_lt (before after : List Char) (h : c.toNat < 0x80) :
    lowercaseAt before c after = [c.toLower] := by
  have hsigma : c.toNat ≠ capitalSigma := fun hc => absurd (hc ▸ h) (by decide)
  rw [lowercaseAt, if_neg hsigma, lowercaseChar, if_pos h]

theorem exists_mem_lowercaseAt (before after : List Char) (h : 0x80 ≤ c.toNat) :
    ∃ d ∈ lowercaseAt before c after, d = 'k' ∨ 0x80 ≤ d.toNat := by
  unfold lowercaseAt
  split
  · refine ⟨_, List.mem_singleton_self _, .inr ?_⟩
    unfold lowercaseSigma
    split <;> decide
  · exact exists_mem_lowercaseChar h

/-- A word of small letters without a k is the lower-case form of its casings alone, whatever has
come before them. -/
theorem lowercaseFrom_eq_iff (before : List Char)
    (hword : ∀ l ∈ word, l.isLower = true ∧ l ≠ 'k') :
    lowercaseFrom before cs = word ↔ List.Forall₂ IsCase cs word := by
  induction cs generalizing before word with
  | nil => simp [lowercaseFrom, eq_comm]
  | cons c cs ih =>
    rw [lowercaseFrom, List.forall₂_cons_left_iff]
    by_cases hc : c.toNat < 0x80
    · rw [lowercaseAt_of_lt before cs hc, List.singleton_append]
      constructor
      · rintro rfl
        rw [List.forall_mem_cons] at hword
        exact ⟨_, _, (toLower_eq_iff_isCase hword.1.1).mp rfl, (ih _ hword.2).mp rfl, rfl⟩
      · rintro ⟨l, rest, hl, hrest, rfl⟩
        rw [List.forall_mem_cons] at hword
        rw [(toLower_eq_iff_isCase hword.1.1).mpr hl, (ih _ hword.2).mpr hrest]
    · obtain ⟨d, hd, hfar⟩ := exists_mem_lowercaseAt before cs (Nat.not_lt.mp hc)
      constructor
      · rintro rfl
        obtain ⟨hlower, hk⟩ := hword d (List.mem_append_left _ hd)
        have hd := toNat_lt_of_isLower hlower
        exact absurd hfar (not_or.mpr ⟨hk, Nat.not_le.mpr hd⟩)
      · rintro ⟨l, rest, hl, -, rfl⟩
        rw [List.forall_mem_cons] at hword
        exact absurd (hl.toNat_lt hword.1.1) hc

end Text

namespace LogLevel

theorem letters_word (level : LogLevel) :
    ∀ l ∈ level.word.toList, l.isLower = true ∧ l ≠ 'k' := by
  have hall : (level.word.toList.all fun l => l.isLower && l != 'k') = true := by
    cases level <;> decide
  simpa using hall

/-- A text is the word of a level in some casing if its lower-case form is the word. -/
theorem lowercase_eq_word_iff (s : String) (level : LogLevel) :
    Text.lowercase s = level.word ↔ Text.IsCasing s level.word := by
  rw [← String.toList_inj, Text.lowercase, String.toList_ofList]
  exact Text.lowercaseFrom_eq_iff [] level.letters_word

theorem ofText?_eq_some_iff {s : String} {level : LogLevel} :
    ofText? s = some level ↔ Text.lowercase s = level.word := by
  unfold ofText?
  constructor
  · intro h
    split at h
    case h_6 => cases h
    all_goals
      obtain rfl := Option.some.inj h
      assumption
  · intro h
    rw [h]
    cases level <;> rfl

/-- Both lists of words are the same. -/
theorem isLevelWord_iff (s : String) : isLevelWord s = true ↔ ∃ level, ofText? s = some level := by
  simp only [ofText?_eq_some_iff, isLevelWord, List.contains_iff_mem, List.mem_map]
  constructor
  · rintro ⟨level, -, h⟩
    exact ⟨level, h.symm⟩
  · rintro ⟨level, h⟩
    exact ⟨level, by cases level <;> decide, h.symm⟩

end LogLevel

namespace Config

/-- The settings with another level of logging. -/
def withLevel (c : Config) (s : String) : Config :=
  { c with logging := { c.logging with level := s } }

theorem isValid_withLevel_iff (c : Config) (s : String) :
    (c.withLevel s).IsValid ↔ (c.withLevel LogLevel.info.word).IsValid ∧ isLevelWord s = true := by
  have hinfo : isLevelWord LogLevel.info.word = true := by decide
  simp only [isValid_iff, withLevel, hinfo, and_true, and_assoc]

end Config

/-- The log does not start for want of a level only if the word is of none. -/
theorem LogSettings.file?_eq_unknownLevel_iff (settings : LogSettings) (files : Files)
    (now : Timestamp) (w : String) :
    settings.file? files now = .error (.unknownLevel w) ↔
      w = settings.level ∧ LogLevel.ofText? settings.level = none := by
  unfold file?
  grind

/-- Whatever the other settings are, a text is accepted as the level of logging if and only if the
log finds a level in it, and then the log does not fail for it. It finds a level in the texts that
are the word of the level with each letter small or capital. -/
theorem valid_levels_start_log :
    (∀ (c : Config) (s : String), (c.withLevel s).IsValid ↔
      (c.withLevel LogLevel.info.word).IsValid ∧ ∃ level, LogLevel.ofText? s = some level) ∧
    (∀ (s : String) (level : LogLevel),
      LogLevel.ofText? s = some level ↔ Text.IsCasing s level.word) ∧
    (∀ (settings : LogSettings) (files : Files) (now : Timestamp) (w : String),
      settings.file? files now = .error (.unknownLevel w) ↔
        w = settings.level ∧ ∀ level : LogLevel, ¬Text.IsCasing settings.level level.word) ∧
    ∀ c : Config, c.IsValid → ∀ (files : Files) (now : Timestamp) (w : String),
      c.logging.file? files now ≠ .error (.unknownLevel w) := by
  have hlevel (s : String) (level : LogLevel) :
      LogLevel.ofText? s = some level ↔ Text.IsCasing s level.word :=
    LogLevel.ofText?_eq_some_iff.trans (LogLevel.lowercase_eq_word_iff s level)
  refine ⟨fun c s => ?_, hlevel, fun settings files now w => ?_, fun c hc files now w hfails => ?_⟩
  · rw [Config.isValid_withLevel_iff, LogLevel.isLevelWord_iff]
  · rw [LogSettings.file?_eq_unknownLevel_iff, Option.eq_none_iff_forall_ne_some]
    simp only [ne_eq, hlevel]
  · have haccepted := ((Config.isValid_iff c).mp hc).2.2.2.2.2
    obtain ⟨level, hword⟩ := (LogLevel.isLevelWord_iff _).mp haccepted
    rw [LogSettings.file?_eq_unknownLevel_iff, hword] at hfails
    exact Option.some_ne_none level hfails.2

/-- A word in mixed case starts the log. -/
theorem valid_levels_start_log_sample :
    (Config.default.withLevel "WaRn").IsValid ∧
    ∀ (files : Files) (now : Timestamp) (w : String),
      (Config.default.withLevel "WaRn").logging.file? files now ≠ .error (.unknownLevel w) := by
  have hvalid : (Config.default.withLevel "WaRn").IsValid := by decide +kernel
  exact ⟨hvalid, valid_levels_start_log.2.2.2 _ hvalid⟩

/-- The lower-case form of a capital I with a dot is an i, and a mark of its own. -/
example : LogLevel.ofText? "\u0130nfo" = none := by cbv

end RowReplay
