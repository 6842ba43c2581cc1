import RowReplay.Config.Printer
import RowReplay.Config.Reader
import RowReplay.Proofs.Config.Fields
import RowReplay.Proofs.Yaml.Documents
import RowReplay.Proofs.Yaml.Numbers

/-!
The text of a configuration, read back. Every field is written as a scalar that is read as its
value, and the sections as a document of mappings, whatever the texts of the fields are.
-/
namespace RowReplay.Config

open Yaml

variable {c : Config} {f : Field} {rest : List Char}

section Fields

/-- How a node is read as the value of a field. -/
def Field.ofNode? : (f : Field) → Node → Option f.Value
  | .ttl | .readyTimeout | .putTimeout => uint64?
  | .refreshAhead => float?
  | .maxPutAttempts => optional? uint32?
  | .level => word?
  | .format => choice? (LogFormat.all.map fun f => (f.word, f))
  | .directory => optional? word?
  | .console => bool?
  | .rotation => choice? (Rotation.all.map fun r => (r.word, r))

/-- The value of a field as it is written, with the end of its last line. -/
def Field.text (c : Config) : Field → List Char
  | .ttl => natLine c.cache.ttlSeconds.toNat
  | .refreshAhead => wordLine (NumeralLayout.yaml.text c.cache.refreshAhead)
  | .readyTimeout => natLine c.replay.readyTimeoutSeconds.toNat
  | .putTimeout => natLine c.replay.putTimeoutMillis.toNat
  | .maxPutAttempts => (c.replay.maxPutAttempts.map fun n => natLine n.toNat).getD nullLine
  | .level => scalarLines fieldIndent c.logging.level
  | .format => wordLine c.logging.format.word
  | .directory => (c.logging.directory.map (scalarLines fieldIndent)).getD nullLine
  | .console => boolLine c.logging.console
  | .rotation => wordLine c.logging.rotation.word

/-- A scalar is read as a value, from a node and from the setting that the node holds. -/
structure IsScalarOf {α : Type} (read : Node → Option α) (readSetting : Setting.Reading α) (a : α)
    (style : ScalarStyle) (s : String) : Prop where
  read_eq : read (.scalar none style s) = some a
  readSetting_eq : ∀ o, ∃ v, Setting.ofNode? o (.scalar none style s) = some (.value o v) ∧
    ∀ path, readSetting path (.value o v) = .ok a

section Scalars

variable {α : Type} {read : Node → Option α} {readSetting : Setting.Reading α} {a : α}
  {style : ScalarStyle} {s : String}

theorem ofNode?_plain (o : Origin) (s : String) :
    Setting.ofNode? o (.scalar none .plain s) = some (.value o (Setting.ofPlain s)) := by
  simp [Setting.ofNode?, Setting.ofScalar?]

/-- The digits of a whole number as a word. -/
def digitsWord (n : Nat) : String := String.ofList (Nat.toDigits 10 n)

@[simp] theorem toList_digitsWord (n : Nat) : (digitsWord n).toList = Nat.toDigits 10 n :=
  String.toList_ofList

theorem ofPlain_digitsWord {n : Nat} (hn : n < UInt64.size) :
    Setting.ofPlain (digitsWord n) = .unsigned n := by
  obtain ⟨c, cs, hdigits, hc⟩ := exists_toDigits_eq_cons n
  have hminus : (digitsWord n).startsWith "-" = false := by
    rw [String.startsWith_string_eq_false_iff, toList_digitsWord, hdigits]
    rintro ⟨more, hmore⟩
    obtain ⟨rfl, -⟩ := List.cons.inj hmore
    contradiction
  rw [Setting.ofPlain, digitsWord, ofText_toDigits hn, ← digitsWord]
  simp [Setting.ofInt, hminus, hn]

theorem isUnset_digitsWord (n : Nat) :
    isUnset (.scalar none .plain (digitsWord n)) = some false := by
  obtain ⟨c, cs, hdigits, hc⟩ := exists_toDigits_eq_cons n
  have hs := (toList_digitsWord n).trans hdigits
  simp [isUnset, isNullWord_of_digit hs hc, ne_of_digit hs hc "" (by decide)]

theorem isScalarOf_uint64 (n : UInt64) :
    IsScalarOf uint64? Setting.readUInt64 n .plain (digitsWord n.toNat) where
  read_eq := by
    have hn : n.toNat < UInt64.size := n.toNat_lt
    simp [uint64?, plainText?, digitsWord, natOfPlain?_toDigits, hn]
  readSetting_eq o := by
    have hn : n.toNat < UInt64.size := n.toNat_lt
    refine ⟨_, ofNode?_plain o _, fun path => ?_⟩
    rw [ofPlain_digitsWord hn]
    simp [Setting.readUInt64, Setting.readNat, hn, Except.map]

theorem isScalarOf_uint32 (n : UInt32) :
    IsScalarOf uint32? Setting.readUInt32 n .plain (digitsWord n.toNat) where
  read_eq := by
    have hn : n.toNat < UInt32.size := n.toNat_lt
    simp [uint32?, plainText?, digitsWord, natOfPlain?_toDigits, hn]
  readSetting_eq o := by
    have hn : n.toNat < UInt32.size := n.toNat_lt
    refine ⟨_, ofNode?_plain o _, fun path => ?_⟩
    rw [ofPlain_digitsWord (Nat.lt_trans hn (by decide))]
    simp [Setting.readUInt32, Setting.readNat, hn, Except.map]

/-- The text of a fraction is a numeral that is read as it. -/
theorem exists_fraction_eq {x : Binary64} (hx : x.isProperFraction = true) :
    ∃ num : Numeral, NumeralLayout.yaml.text x = String.ofList num.kept ∧ num.IsFloating ∧
      num.value false = x ∧ x.isFinite = true := by
  cases x with
  | nan => contradiction
  | infinite => contradiction
  | finite negative m =>
    cases negative with
    | true => contradiction
    | false =>
      obtain ⟨num, htext, hfloating, hvalue⟩ := exists_yamlText_eq m
      exact ⟨num, by rw [← htext, String.ofList_toList], hfloating, hvalue, rfl⟩

theorem isScalarOf_float {x : Binary64} (hx : x.isProperFraction = true) :
    IsScalarOf float? Setting.readFloat x .plain (NumeralLayout.yaml.text x) := by
  obtain ⟨num, htext, hfloating, rfl, hfinite⟩ := exists_fraction_eq hx
  rw [htext]
  refine ⟨floatOfPlain?_kept num hfinite, fun o => ⟨_, ofNode?_plain o _, fun path => ?_⟩⟩
  rw [Setting.ofPlain, ofText_kept hfloating hfinite]
  rfl

theorem isScalarOf_text (h : style = .plain → PlainValue.ofText s = .text) (expected : String) :
    IsScalarOf word? (Setting.readText expected) s style s where
  read_eq := rfl
  readSetting_eq o := by
    refine ⟨.text s, ?_, fun path => rfl⟩
    by_cases hstyle : style = .plain
    · simp [Setting.ofNode?, Setting.ofScalar?, hstyle, Setting.ofPlain, h hstyle]
    · simp [Setting.ofNode?, Setting.ofScalar?, hstyle]

theorem isScalarOf_choice {words : List (String × α)} (h : PlainValue.ofText s = .text)
    (hword : words.lookup s = some a) (expected : String) :
    IsScalarOf (choice? words) (Setting.readChoice expected words) a .plain s where
  read_eq := hword
  readSetting_eq o := by
    refine ⟨_, ofNode?_plain o s, fun path => ?_⟩
    simp [Setting.ofPlain, h, Setting.readChoice, hword]

theorem isScalarOf_bool (b : Bool) :
    IsScalarOf bool? Setting.readBool b .plain (if b then "true" else "false") where
  read_eq := by cases b <;> decide
  readSetting_eq o := by
    cases b <;> exact ⟨_, ofNode?_plain o _, fun path => rfl⟩

/-- Nothing is set. -/
theorem isScalarOf_null :
    IsScalarOf (optional? read) (Setting.readOptional readSetting) none .plain "null" where
  read_eq := by simp [optional?, isUnset, isNullWord]
  readSetting_eq o := ⟨_, ofNode?_plain o _, fun path => rfl⟩

/-- A value that may be left unset and is not. -/
theorem IsScalarOf.optional (h : IsScalarOf read readSetting a style s)
    (hset : isUnset (.scalar none style s) = some false)
    (hunset : ∀ o path, readSetting path (.value o .unset) ≠ .ok a) :
    IsScalarOf (optional? read) (Setting.readOptional readSetting) (some a) style s where
  read_eq := by simp [optional?, hset, h.read_eq]
  readSetting_eq o := by
    obtain ⟨v, hnode, hread⟩ := h.readSetting_eq o
    refine ⟨v, hnode, fun path => ?_⟩
    cases v with
    | unset => exact absurd (hread path) (hunset o path)
    | _ => simp [Setting.readOptional, hread, Except.map]

/-- What stands for itself is no word for nothing. -/
theorem isUnset_text (h : style = .plain → PlainValue.ofText s = .text) :
    isUnset (.scalar none style s) = some false := by
  cases style with
  | plain =>
    have htext := h rfl
    have hunset : (s.isEmpty || isNullWord s) = false := by
      rw [← Bool.not_eq_true]
      intro hunset
      simp [PlainValue.ofText, hunset] at htext
    simpa [isUnset] using hunset
  | _ => rfl

end Scalars

/-- A field is written as a scalar that is read as its value. The last field may be followed by the
end of the text. -/
structure Field.IsWrittenAs (f : Field) (c : Config) (style : ScalarStyle) (s : String) : Prop where
  reads : ∀ rest, (f ≠ .rotation → IsLine (fieldIndent + 1) rest) → Below (fieldIndent + 1) rest →
    Yaml.Reads 2 fieldIndent (' ' :: f.text c) rest (.scalar none style s)
  printable : Printable (f.text c)
  isScalarOf : IsScalarOf f.ofNode? f.read (f.get c) style s

theorem printable_wordLine {s : String} (hsafe : isPlainSafe s.toList = true) :
    Printable (wordLine s) := by
  simp [wordLine, printable_of_isPlainSafe hsafe]

/-- A word that may stand plainly is followed by whatever begins left of it. -/
theorem Field.isWrittenAs_word {s : String} (hs : f.text c = wordLine s)
    (hsafe : isPlainSafe s.toList = true) (hne : s ≠ "")
    (h : IsScalarOf f.ofNode? f.read (f.get c) .plain s) : f.IsWrittenAs c .plain s :=
  ⟨fun _ _ hrest => hs ▸ reads_plain hsafe hne hrest, hs ▸ printable_wordLine hsafe, h⟩

theorem isPlainSafe_digitsWord (n : Nat) :
    isPlainSafe (digitsWord n).toList = true ∧ digitsWord n ≠ "" := by
  obtain ⟨c, cs, hdigits, hc⟩ := exists_toDigits_eq_cons n
  have hall : ∀ d ∈ c :: cs, isNumeralChar d = true := by
    intro d hd
    have hdigit := allDigits_toDigits n d (hdigits ▸ hd)
    simp [isNumeralChar, hdigit]
  have hs := (toList_digitsWord n).trans hdigits
  exact ⟨hs ▸ isPlainSafe_of_numeral hc hall, ne_of_digit hs hc "" (by decide)⟩

theorem natLine_eq (n : Nat) : natLine n = wordLine (digitsWord n) := by
  simp [natLine, wordLine]

theorem Field.isWrittenAs_nat {n : Nat} (hs : f.text c = natLine n)
    (h : IsScalarOf f.ofNode? f.read (f.get c) .plain (digitsWord n)) :
    f.IsWrittenAs c .plain (digitsWord n) :=
  isWrittenAs_word (hs.trans (natLine_eq n)) (isPlainSafe_digitsWord n).1
    (isPlainSafe_digitsWord n).2 h

/-- The words of choices may stand plainly, and stand for themselves. -/
theorem choiceWord_cases : ∀ s ∈ LogFormat.all.map LogFormat.word ++ Rotation.all.map Rotation.word,
    isPlainSafe s.toList = true ∧ s ≠ "" ∧ PlainValue.ofText s = .text := by decide +kernel

theorem Field.isWrittenAs_choice {s : String} (hs : f.text c = wordLine s)
    (hmem : s ∈ LogFormat.all.map LogFormat.word ++ Rotation.all.map Rotation.word)
    (h : PlainValue.ofText s = .text → IsScalarOf f.ofNode? f.read (f.get c) .plain s) :
    f.IsWrittenAs c .plain s := by
  obtain ⟨hsafe, hne, hword⟩ := choiceWord_cases s hmem
  exact isWrittenAs_word hs hsafe hne (h hword)

theorem Field.isWrittenAs_null (hs : f.text c = nullLine)
    (h : IsScalarOf f.ofNode? f.read (f.get c) .plain "null") : f.IsWrittenAs c .plain "null" := by
  have hnull : isPlainSafe "null".toList = true ∧ "null" ≠ "" := by decide
  exact isWrittenAs_word hs hnull.1 hnull.2 h

theorem Field.isWrittenAs_fraction {x : Binary64} (hx : x.isProperFraction = true)
    (hs : f.text c = wordLine (NumeralLayout.yaml.text x))
    (h : IsScalarOf f.ofNode? f.read (f.get c) .plain (NumeralLayout.yaml.text x)) :
    f.IsWrittenAs c .plain (NumeralLayout.yaml.text x) := by
  obtain ⟨num, htext, -⟩ := exists_fraction_eq hx
  obtain ⟨d, ds, hkept, hd⟩ := exists_kept_eq_cons num
  have hcons : (NumeralLayout.yaml.text x).toList = d :: ds := by
    rw [htext, String.toList_ofList, hkept]
  have hsafe := isPlainSafe_of_numeral hd (hkept ▸ isNumeralChar_kept num)
  exact isWrittenAs_word hs (hcons ▸ hsafe) (ne_of_digit hcons hd "" (by decide)) h

/-- Any text is written in a style in which it does not stand for something else. -/
theorem Field.exists_isWrittenAs_text {s : String} (hs : f.text c = scalarLines fieldIndent s)
    (hf : f ≠ .rotation) (h : ∀ style, (style = .plain → PlainValue.ofText s = .text) →
      IsScalarOf f.ofNode? f.read (f.get c) style s) : ∃ style, f.IsWrittenAs c style s := by
  obtain ⟨style, hplain, hreads⟩ := reads_scalarLines fieldIndent s
  exact ⟨style, fun rest hline _ => hs ▸ hreads rest (hline hf),
    hs ▸ printable_scalarLines fieldIndent s, h style hplain⟩

theorem Field.exists_isWrittenAs (hc : c.IsValid) (f : Field) :
    ∃ style s, f.IsWrittenAs c style s := by
  cases f with
  | ttl => exact ⟨_, _, isWrittenAs_nat rfl (isScalarOf_uint64 _)⟩
  | readyTimeout => exact ⟨_, _, isWrittenAs_nat rfl (isScalarOf_uint64 _)⟩
  | putTimeout => exact ⟨_, _, isWrittenAs_nat rfl (isScalarOf_uint64 _)⟩
  | refreshAhead =>
    have hfraction := (c.isValid_iff.mp hc).2.1
    exact ⟨_, _, isWrittenAs_fraction hfraction rfl (isScalarOf_float hfraction)⟩
  | maxPutAttempts =>
    cases hmost : c.replay.maxPutAttempts with
    | none =>
      have hget : get c .maxPutAttempts = none := hmost
      have hs : text c .maxPutAttempts = nullLine := by simp [text, hmost]
      exact ⟨_, _, isWrittenAs_null hs (hget ▸ isScalarOf_null)⟩
    | some n =>
      have hget : get c .maxPutAttempts = some n := hmost
      have hs : text c .maxPutAttempts = natLine n.toNat := by simp [text, hmost]
      have hscalar := (isScalarOf_uint32 n).optional (isUnset_digitsWord n.toNat)
        fun _ _ => nofun
      exact ⟨_, _, isWrittenAs_nat hs (hget ▸ hscalar)⟩
  | level =>
    obtain ⟨style, hwritten⟩ := exists_isWrittenAs_text (f := .level) (c := c) rfl (by decide)
      fun style hplain => isScalarOf_text hplain _
    exact ⟨style, _, hwritten⟩
  | format =>
    have hlookup : (LogFormat.all.map fun f => (f.word, f)).lookup c.logging.format.word =
        some c.logging.format := by
      cases c.logging.format <;> rfl
    exact ⟨_, _, isWrittenAs_choice rfl (by cases c.logging.format <;> decide)
      fun hword => isScalarOf_choice hword hlookup _⟩
  | directory =>
    cases hdirectory : c.logging.directory with
    | none =>
      have hget : get c .directory = none := hdirectory
      have hs : text c .directory = nullLine := by simp [text, hdirectory]
      exact ⟨_, _, isWrittenAs_null hs (hget ▸ isScalarOf_null)⟩
    | some s =>
      have hget : get c .directory = some s := hdirectory
      have hs : text c .directory = scalarLines fieldIndent s := by simp [text, hdirectory]
      obtain ⟨style, hwritten⟩ := exists_isWrittenAs_text hs (by decide) fun style hplain =>
        hget ▸ (isScalarOf_text hplain "path string").optional (isUnset_text hplain)
          fun _ _ => nofun
      exact ⟨style, s, hwritten⟩
  | console =>
    have hword : isPlainSafe (if c.logging.console then "true" else "false").toList = true ∧
        (if c.logging.console then "true" else "false") ≠ "" := by
      cases c.logging.console <;> decide
    exact ⟨_, _, isWrittenAs_word rfl hword.1 hword.2 (isScalarOf_bool _)⟩
  | rotation =>
    have hlookup : (Rotation.all.map fun r => (r.word, r)).lookup c.logging.rotation.word =
        some c.logging.rotation := by
      cases c.logging.rotation <;> rfl
    exact ⟨_, _, isWrittenAs_choice rfl (by cases c.logging.rotation <;> decide)
      fun hword => isScalarOf_choice hword hlookup _⟩

end Fields

/-- The sections in the order in which they are written. -/
def sections : List (String × List Field) :=
  [("cache", [.ttl, .refreshAhead]), ("replay", [.readyTimeout, .putTimeout, .maxPutAttempts]),
    ("logging", [.level, .format, .directory, .console, .rotation])]

theorem toList_yaml (c : Config) :
    c.yaml.toList = sections.flatMap fun (name, fields) =>
      sectionText name (fields.map fun f => (f.name, f.text c)) := by
  unfold yaml sections
  rw [String.toList_ofList]
  simp [Field.name, Field.text]

section Document

variable {node : Field → Node} {fields : List Field} {text : List Char}
  {nodes : List (Node × Node)} {need : Nat} {name : String}

theorem isKey_name (f : Field) : isKey f.name.toList = true := by
  cases f <;> decide

/-- Fields before others of their section, or before the next section. -/
theorem members_fields (hreads : ∀ f ∈ fields, ∀ rest, IsLine (fieldIndent + 1) rest →
      Yaml.Reads 2 fieldIndent (' ' :: f.text c) rest (node f))
    (h : Members 2 fieldIndent rest text nodes) (hline : IsLine (fieldIndent + 1) (text ++ rest)) :
    Members 2 fieldIndent rest
        ((fields.flatMap fun f => fieldText f.name (f.text c)) ++ text)
        (fields.map (fun f => (keyNode f.name, node f)) ++ nodes) ∧
      IsLine (fieldIndent + 1)
        ((fields.flatMap fun f => fieldText f.name (f.text c)) ++ text ++ rest) := by
  induction fields with
  | nil => exact ⟨h, hline⟩
  | cons f fields ih =>
    rw [List.forall_mem_cons] at hreads
    obtain ⟨hmembers, hline'⟩ := ih hreads.2
    have hall := hmembers.cons (isKey_name f) (fun _ => rfl) (hreads.1 _ hline')
    refine ⟨?_, ?_⟩
    · simpa [fieldText] using hall
    · simpa [fieldText] using isLine_key (isKey_name f) (Nat.lt_succ_self fieldIndent) _

/-- A section before others. -/
theorem members_section {fieldsText : List Char} {fieldNodes : List (Node × Node)}
    (h : Members need 0 rest text nodes) (hkey : isKey name.toList = true)
    (hfields : Members 2 fieldIndent (text ++ rest) fieldsText fieldNodes) (hne : fieldNodes ≠ [])
    (hbelow : Below fieldIndent (text ++ rest)) (hneed : 2 + 3 * fieldNodes.length + 2 ≤ need) :
    Members need 0 rest (name.toList ++ ':' :: '\n' :: fieldsText ++ text)
      ((keyNode name, .mapping fieldNodes) :: nodes) := by
  have houter : 0 < fieldIndent := by decide
  have hreads := hfields.reads hbelow hne houter
  have hall := h.cons hkey (fun _ => rfl) fun fuel line column' hfuel =>
    hreads fuel line column' (Nat.le_trans hneed hfuel)
  simpa using hall

theorem isLine_section (hkey : isKey name.toList = true) (more : List Char) :
    IsLine 1 (name.toList ++ more) := isLine_key hkey Nat.zero_lt_one more

/-- A section whose fields are all followed by a line. -/
theorem members_innerSection (h : Members need 0 rest text nodes)
    (hkey : isKey name.toList = true) (hne : fields ≠ [])
    (hreads : ∀ f ∈ fields, ∀ rest, IsLine (fieldIndent + 1) rest →
      Yaml.Reads 2 fieldIndent (' ' :: f.text c) rest (node f))
    (hline : IsLine 1 (text ++ rest)) (hneed : 2 + 3 * fields.length + 2 ≤ need) :
    Members need 0 rest (sectionText name (fields.map fun f => (f.name, f.text c)) ++ text)
      ((keyNode name, .mapping (fields.map fun f => (keyNode f.name, node f))) :: nodes) := by
  have hnil : Members 2 fieldIndent (text ++ rest) [] [] := .nil
  have hfields := (members_fields hreads hnil (hline.mono (by decide))).1
  rw [List.append_nil, List.append_nil] at hfields
  have hsection := members_section h hkey hfields (by simpa using hne)
    (.line (hline.mono (by decide))) (by simpa using hneed)
  simpa [sectionText, List.flatMap_map] using hsection

/-- The sections as a mapping of mappings. -/
def sectionNodes (node : Field → Node) : List (Node × Node) :=
  sections.map fun (name, fields) =>
    (keyNode name, .mapping (fields.map fun f => (keyNode f.name, node f)))

/-- A configuration is written as the members of a document. -/
theorem members_yaml (hreads : ∀ f rest, (f ≠ .rotation → IsLine (fieldIndent + 1) rest) →
      Below (fieldIndent + 1) rest → Yaml.Reads 2 fieldIndent (' ' :: f.text c) rest (node f))
    (hrest : Below 0 rest) : Members 19 0 rest c.yaml.toList (sectionNodes node) := by
  have hinner (fields : List Field) (f : Field) (_ : f ∈ fields) (rest : List Char)
      (h : IsLine (fieldIndent + 1) rest) :
      Yaml.Reads 2 fieldIndent (' ' :: f.text c) rest (node f) :=
    hreads f rest (fun _ => h) (.line h)
  have hnoField : Members 2 fieldIndent rest [] [] := .nil
  have hrotation := hnoField.cons (isKey_name .rotation) (fun _ => rfl)
    (hreads .rotation rest (fun h => absurd rfl h) (hrest.mono (by decide)))
  have hlogging := (members_fields (hinner [.level, .format, .directory, .console]) hrotation
    (isLine_key (isKey_name .rotation) (Nat.lt_succ_self fieldIndent) _)).1
  have hnoSection : Members 19 0 rest [] [] := .nil
  have hloggingKey : isKey "logging".toList = true := by decide
  have hreplayKey : isKey "replay".toList = true := by decide
  have hcacheKey : isKey "cache".toList = true := by decide
  have hlast := members_section hnoSection hloggingKey hlogging (by simp)
    (hrest.mono (by decide)) (by simp)
  have hreplay := members_innerSection hlast hreplayKey (by simp)
    (hinner [.readyTimeout, .putTimeout, .maxPutAttempts])
    (by simpa using isLine_section hloggingKey _) (by simp)
  have hcache := members_innerSection hreplay hcacheKey (by simp)
    (hinner [.ttl, .refreshAhead])
    (by simpa [sectionText] using isLine_section hreplayKey _) (by simp)
  rw [toList_yaml]
  simpa [sections, sectionNodes, sectionText, fieldText, List.flatMap_map] using hcache

theorem printable_yaml (h : ∀ f : Field, Printable (f.text c)) : Printable c.yaml.toList := by
  have hcolon : isPrintable ':' = true := by decide
  have hfield (f : Field) : Printable (fieldText f.name (f.text c)) := by
    have hname : (f.name.toList.all isPrintable) = true := by cases f <;> decide
    have hname : Printable f.name.toList := List.all_eq_true.mp hname
    simp [fieldText, hcolon, hname, h f]
  rw [toList_yaml]
  refine printable_flatMap fun s hs => ?_
  have hnames : (sections.all fun s => s.1.toList.all isPrintable) = true := by decide
  have hname : Printable s.1.toList := List.all_eq_true.mp (List.all_eq_true.mp hnames s hs)
  have hfields (m : String × List Char) (hm : m ∈ s.2.map fun f => (f.name, f.text c)) :
      Printable (fieldText m.1 m.2) := by
    obtain ⟨f, -, rfl⟩ := List.mem_map.mp hm
    exact hfield f
  change Printable (sectionText s.1 (s.2.map fun f => (f.name, f.text c)))
  rw [sectionText, printable_append, printable_cons, printable_cons]
  exact ⟨hname, hcolon, isPrintable_newline, printable_flatMap hfields⟩

/-- What is shown is read as the mapping of its sections, whatever ends of lines follow. -/
theorem ofText?_yaml {style : Field → ScalarStyle} {word : Field → String}
    (h : ∀ f : Field, f.IsWrittenAs c (style f) (word f)) (hrest : Below 0 rest)
    (hprintable : Printable rest) :
    Document.ofText? (String.ofList (c.yaml.toList ++ rest)) =
      some ⟨some (.mapping (sectionNodes fun f => .scalar none (style f) (word f))), 0, 0⟩ := by
  have hmembers : Members 19 0 rest c.yaml.toList
      (sectionNodes fun f => .scalar none (style f) (word f)) :=
    members_yaml (fun f => (h f).reads) hrest
  refine ofText?_members hmembers hrest (by simp [sectionNodes, sections])
    (printable_append.mpr ⟨printable_yaml fun f => (h f).printable, hprintable⟩) ?_ ?_
  · rw [toList_yaml]
    simp [sections, sectionNodes, sectionText]
    omega
  · simp [sectionNodes, sections, Node.resolve, Node.resolveMembers, keyNode]

/-- Every field is read from its node. -/
theorem ofNode?_sectionNodes (h : ∀ f : Field, f.ofNode? (node f) = some (f.get c)) :
    ofNode? (.mapping (sectionNodes node)) = some c := by
  have hcache : cacheOfNode? (.mapping [(keyNode "ttl_secs", node .ttl),
      (keyNode "refresh_ahead", node .refreshAhead)]) = some c.cache := by
    have httl : uint64? (node .ttl) = some c.cache.ttlSeconds := h .ttl
    have hahead : float? (node .refreshAhead) = some c.cache.refreshAhead := h .refreshAhead
    simp [cacheOfNode?, members?, field?, keyNode, word?, httl, hahead]
  have hreplay : replayOfNode? (.mapping [(keyNode "ready_timeout_secs", node .readyTimeout),
      (keyNode "put_timeout_ms", node .putTimeout),
      (keyNode "max_put_attempts", node .maxPutAttempts)]) = some c.replay := by
    have hready : uint64? (node .readyTimeout) = some c.replay.readyTimeoutSeconds :=
      h .readyTimeout
    have hput : uint64? (node .putTimeout) = some c.replay.putTimeoutMillis := h .putTimeout
    have hmost : optional? uint32? (node .maxPutAttempts) = some c.replay.maxPutAttempts :=
      h .maxPutAttempts
    simp [replayOfNode?, members?, field?, keyNode, word?, hready, hput, hmost]
  have hlogging : loggingOfNode? (.mapping [(keyNode "level", node .level),
      (keyNode "format", node .format), (keyNode "log_dir", node .directory),
      (keyNode "enable_console", node .console), (keyNode "rotation", node .rotation)]) =
        some c.logging := by
    have hlevel : word? (node .level) = some c.logging.level := h .level
    have hformat : choice? (LogFormat.all.map fun f => (f.word, f)) (node .format) =
        some c.logging.format := h .format
    have hdirectory : optional? word? (node .directory) = some c.logging.directory := h .directory
    have hconsole : bool? (node .console) = some c.logging.console := h .console
    have hrotation : choice? (Rotation.all.map fun r => (r.word, r)) (node .rotation) =
        some c.logging.rotation := h .rotation
    have hkey (name : String) : word? (keyNode name) = some name := rfl
    simp [loggingOfNode?, members?, field?, hkey, hlevel, hformat, hdirectory, hconsole, hrotation]
  have hkey (name : String) : word? (keyNode name) = some name := rfl
  simp [ofNode?, members?, sectionNodes, sections, field?, hkey, Field.name, hcache, hreplay,
    hlogging]

end Document

end RowReplay.Config
