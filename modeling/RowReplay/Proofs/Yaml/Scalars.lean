import RowReplay.Proofs.Yaml.LineScalars

/-!
Scalars as nodes: a text that is written as the value of a key is read as that text, in whatever
style it is written, and the lines that follow are next.
-/
namespace RowReplay.Yaml

open Cursor

variable {c d : Char} {cs rest : List Char} {least line column : Nat}

section Nodes

variable {node : Node} {after : Cursor} {fuel : Nat}

/-- What the first characters do not introduce: a comment, an item, a key, a name, or a tag. -/
def StartsScalar : List Char → Prop
  | [] => False
  | c :: rest => isBlank c = false ∧ isBreak c = false ∧ c ≠ '#' ∧ c ≠ '&' ∧ c ≠ '!' ∧
      (c = '-' ∨ c = '?' → endsWord rest = false)

theorem properties?_none (h : StartsScalar rest) (line column : Nat) :
    properties? false 3 .none ⟨line, column, rest⟩ = some (.none, ⟨line, column, rest⟩) := by
  cases rest with
  | nil => contradiction
  | cons c rest =>
    obtain ⟨-, -, -, hname, htag, -⟩ := h
    unfold properties?
    split <;> simp_all

/-- A node within a line that no colon follows is a node of a block. -/
theorem blockNode?_inline (h : StartsScalar rest)
    (hread : inlineNode? fuel least ⟨line, column, rest⟩ = some (node, after))
    (hcolon : ∀ key, afterColon? false key after = none) (keys : Bool) :
    blockNode? (fuel + 1) least keys ⟨line, column, rest⟩ = some (node, after) := by
  have hnone := properties?_none h line column
  cases rest with
  | nil => contradiction
  | cons c rest =>
    obtain ⟨-, -, -, -, -, hmarks⟩ := h
    have hdash : atDash ⟨line, column, c :: rest⟩ = false := by
      unfold atDash
      split <;> simp_all
    have hquestion : atQuestion ⟨line, column, c :: rest⟩ = false := by
      unfold atQuestion
      split <;> simp_all
    have hnothing : Properties.none.isNone = true := rfl
    rw [blockNode?]
    simp only [hdash, hquestion, hnone, hnothing, hread, hcolon, Bool.false_eq_true, if_false,
      Bool.not_true, Bool.false_and]
    rfl

/-- Written after the colon of its key, a text is read as a node; the lines that follow are next.
The key stands in this column. -/
def Reads (need column : Nat) (value rest : List Char) (node : Node) : Prop :=
  ∀ fuel line column', need ≤ fuel → ∃ after line',
    value? fuel column false ⟨line, column', value ++ rest⟩ = some (node, after) ∧
      after.next true = ofLine line' rest

/-- A scalar on the line of its key. -/
theorem reads_inline {value : List Char} (hstart : StartsScalar (value ++ rest))
    (h : ∀ fuel line column', 0 < column' → ∃ after line',
      inlineNode? fuel (column + 1) ⟨line, column', value ++ rest⟩ = some (node, after) ∧
        after.Leads line' rest) : Reads 2 column (' ' :: value) rest node := by
  intro fuel line column' hfuel
  obtain ⟨fuel, rfl⟩ : ∃ k, fuel = k + 1 + 1 := ⟨fuel - 2, by omega⟩
  obtain ⟨after, line', hread, hleads⟩ := h fuel line (column' + 1) (Nat.succ_pos column')
  refine ⟨after, line', ?_, hleads.next_eq⟩
  have hblock := blockNode?_inline hstart hread hleads.afterColon?_eq false
  have hnext : next ⟨line, column', ' ' :: (value ++ rest)⟩ true =
      ⟨line, column' + 1, value ++ rest⟩ := by
    cases htext : value ++ rest with
    | nil => rfl
    | cons c more =>
      rw [htext] at hstart
      exact skip_of_visible hstart.1 hstart.2.1 hstart.2.2.1 true line (column' + 1) more
  have hne : (value ++ rest).isEmpty = false := by
    cases htext : value ++ rest with
    | nil =>
      rw [htext] at hstart
      contradiction
    | cons => rfl
  rw [List.cons_append, value?]
  simp only [Bool.not_false, hnext, hne, Bool.false_eq_true, if_false, if_true, hblock]

theorem reads_doubleQuoted (column : Nat) (s : String) (rest : List Char) :
    Reads 2 column (' ' :: (doubleQuoted s.toList ++ ['\n'])) rest
      (.scalar none .doubleQuoted s) := by
  refine reads_inline (by simp [doubleQuoted, StartsScalar, isBlank, isBreak])
    fun fuel line column' _ => ?_
  obtain ⟨column₁, hread⟩ := doubleFrom_rest s.toList [] line (column' + 1) ('\n' :: rest)
  refine ⟨_, line + 1, ?_, leads_break line column₁ rest⟩
  simp [doubleQuoted, inlineNode?, lineNode?, Gap.none, hread]

theorem reads_singleQuoted {s : String} (hsafe : isSingleQuotedSafe s.toList = true)
    (hbreak : s.toList.contains '\n' = false) (column : Nat) (rest : List Char) :
    Reads 2 column (' ' :: (singleQuoted (column + scalarIndent) s.toList ++ ['\n'])) rest
      (.scalar none .singleQuoted s) := by
  simp only [isSingleQuotedSafe, Bool.and_eq_true, Bool.not_eq_true', List.all_eq_true] at hsafe
  obtain ⟨⟨hprintable, hbefore⟩, hafter⟩ := hsafe
  have hcs : ∀ c ∈ s.toList, isPrintable c = true ∧ c ≠ '\n' := by
    refine fun c hc => ⟨hprintable c hc, ?_⟩
    rintro rfl
    simp [hc] at hbreak
  refine reads_inline (by simp [singleQuoted, StartsScalar, isBlank, isBreak])
    fun fuel line column' _ => ?_
  have hindent : 0 < column + scalarIndent := Nat.add_pos_right _ (by decide)
  obtain ⟨line₁, column₁, hread⟩ := passed_none.singleFrom_rest hindent hcs hbefore hafter line
    (column' + 1) rest
  refine ⟨_, line₁ + 1, ?_, leads_break line₁ column₁ rest⟩
  have hnone : Gap.none.text = [] := rfl
  simp [singleQuoted, inlineNode?, lineNode?, hread, hnone]

/-- The characters that introduce something else than a plain scalar. -/
def marks : List Char :=
  ['#', ',', '[', ']', '\x7b', '\x7d', '&', '*', '!', '|', '>', '\'', '"', '%', '@', Char.ofNat 96]

theorem startsWithMark_cons (c : Char) (cs : List Char) :
    startsWithMark (c :: cs) =
      (marks.contains c || ((c = '?' || c = ':' || c = '-') && endsWord cs)) := rfl

/-- A kind of characters without marks. -/
theorem contains_marks_eq_false {p : Char → Bool} (hmarks : (marks.all fun d => !p d) = true)
    (hc : p c = true) : marks.contains c = false := by
  rw [← Bool.not_eq_true, List.contains_iff_mem]
  intro hmem
  simpa [hc] using List.all_eq_true.mp hmarks c hmem

/-- A plain scalar may begin with other characters, unless what follows makes a mark of them. -/
def StartsPlain : List Char → Prop
  | [] => False
  | c :: rest => marks.contains c = false ∧ isBlank c = false ∧ isBreak c = false ∧
      (c = '-' ∨ c = '?' ∨ c = ':' → endsWord rest = false)

theorem StartsPlain.startsScalar (h : StartsPlain rest) : StartsScalar rest := by
  cases rest with
  | nil => contradiction
  | cons c rest =>
    obtain ⟨hmarks, hblank, hbreak, hword⟩ := h
    refine ⟨hblank, hbreak, ?_, ?_, ?_, fun hc => hword (hc.imp_right .inl)⟩ <;>
    · rintro rfl
      contradiction

theorem inlineNode?_plain (h : StartsPlain rest) (line column : Nat) :
    inlineNode? fuel least ⟨line, column, rest⟩ =
      (plainFrom false least .none line column rest).map fun (text, after) =>
        (.scalar none .plain (String.ofList text), after) := by
  cases rest with
  | nil => contradiction
  | cons c rest =>
    obtain ⟨hmarks, hblank, hbreak, hword⟩ := h
    have hstarts : startsPlain false (c :: rest) = true := by
      unfold startsPlain
      split <;> simp_all [marks]
    have hline : lineNode? false least ⟨line, column, c :: rest⟩ =
        (plainFrom false least .none line column (c :: rest)).map fun (text, after) =>
          (.scalar none .plain (String.ofList text), after) := by
      unfold lineNode?
      split
      case h_4 => simp [hstarts]
      all_goals simp_all [marks]
    unfold inlineNode?
    split
    case h_5 => exact hline
    all_goals simp_all [marks]

theorem reads_plain {s : String} (hsafe : isPlainSafe s.toList = true) (hne : s ≠ "")
    (h : Below (column + 1) rest) :
    Reads 2 column (' ' :: (s.toList ++ ['\n'])) rest (.scalar none .plain s) := by
  simp only [isPlainSafe, Bool.and_eq_true, Bool.not_eq_true', List.all_eq_true,
    Option.all_eq_true] at hsafe
  obtain ⟨⟨⟨⟨⟨-, hstart⟩, hmark⟩, hfirst⟩, hlast⟩, hcs⟩ := hsafe
  have hnil : s.toList ≠ [] := fun hnil => hne (String.toList_eq_nil_iff.mp hnil)
  have hplain : StartsPlain (s.toList ++ '\n' :: rest) := by
    obtain ⟨c, cs, hcs'⟩ := List.exists_cons_of_ne_nil hnil
    rw [hcs'] at hstart hfirst hcs
    rw [hcs', List.cons_append]
    obtain ⟨hprintable, hbreak⟩ := hcs c List.mem_cons_self
    have hblank := (isBlank_of_isPrintable hprintable).trans (hfirst c rfl)
    rw [startsWithMark_cons, Bool.or_eq_false_iff] at hstart
    refine ⟨hstart.1, hblank, hbreak, fun hc => ?_⟩
    rw [endsWord_append_break]
    rcases hc with rfl | rfl | rfl <;> simpa using hstart.2
  refine reads_inline (by simpa using hplain.startsScalar) fun fuel line column' hcolumn => ?_
  have hread := plainFrom_blanks [] h hmark (fun hnil => absurd rfl hnil) hcs hlast hcolumn line
  rw [if_neg hnil, List.nil_append] at hread
  refine ⟨_, line + 1, ?_, leads_ofLine h (line + 1)⟩
  rw [List.append_assoc, List.singleton_append, inlineNode?_plain hplain, Gap.none]
  simp [hread]

end Nodes

section Literal

variable {chomping : Chomping} {indent spaces : Nat}

theorem blockLines_spaces {k : Nat} (hk : spaces + k ≤ indent) (line : Nat) (rest : List Char) :
    blockLines indent spaces line (List.replicate k ' ' ++ rest) =
      blockLines indent (spaces + k) line rest := by
  refine pass_spaces (blockLines indent · line) (fun m hm rest => ?_) rest
  have hlt : m < indent := Nat.lt_of_lt_of_le hm hk
  simp [blockLines, hlt]

/-- A block ends where a line is not indented enough. -/
theorem blockLines_line (h : IsLine indent rest) (line : Nat) :
    blockLines indent 0 line rest = some ([], ofLine line rest) := by
  obtain ⟨k, c, more, hk, hc, rfl⟩ := h
  have hspace : c ≠ ' ' := ne_of_isLower hc rfl
  have htab : c ≠ '\t' := ne_of_isLower hc rfl
  rw [blockLines_spaces (by omega), Nat.zero_add, ofLine_indented hc]
  simp [blockLines, hspace, htab, isBreak_of_isLower hc, Nat.ne_of_lt hk]

theorem blockLines_break (hc : isPrintable c = true) (hbreak : isBreak c = true) (line : Nat)
    (rest : List Char) :
    blockLines indent 0 line (c :: rest) =
      (blockLines indent 0 (line + 1) rest).map fun (lines, cursor) =>
        (⟨none, [c]⟩ :: lines, cursor) := by
  have hspace : c ≠ ' ' := by
    rintro rfl
    contradiction
  simp [blockLines, hspace, ne_tab_of_isPrintable hc, hbreak]

theorem blockLines_content (hbreak : isBreak c = false) (line : Nat) (rest : List Char) :
    blockLines indent 0 line (List.replicate indent ' ' ++ c :: rest) =
      (blockContent indent line indent rest).map fun (content, lineBreak, lines, cursor) =>
        (⟨some (c :: content), lineBreak⟩ :: lines, cursor) := by
  rw [blockLines_spaces (by omega), Nat.zero_add]
  simp [blockLines, hbreak]

/-- The lines of a literal block, from the start of one and from within it, make up a text. -/
structure ReadsLines (indent : Nat) (chomping : Chomping) (rest cs : List Char) : Prop where
  fromStart : ∀ line, ∃ lines line',
    blockLines indent 0 line (indentedLines indent true cs ++ rest) =
        some (lines, ofLine line' rest) ∧
      ∀ lead leadBlank empty,
        blockText false chomping lead leadBlank empty lines = lead ++ empty ++ cs
  fromWithin : ∀ line column, ∃ content lineBreak lines line',
    blockContent indent line column (indentedLines indent false cs ++ rest) =
        some (content, lineBreak, lines, ofLine line' rest) ∧
      ∀ leadBlank, content ++ blockText false chomping lineBreak leadBlank [] lines = cs

/-- One character more is read. -/
theorem ReadsLines.cons (h : ReadsLines indent chomping rest cs) (hc : isPrintable c = true) :
    ReadsLines indent chomping rest (c :: cs) := by
  by_cases hbreak : isBreak c = true
  · refine ⟨fun line => ?_, fun line column => ?_⟩
    · obtain ⟨lines, line', hread, htext⟩ := h.fromStart (line + 1)
      refine ⟨⟨none, [c]⟩ :: lines, line', ?_, fun lead leadBlank empty => ?_⟩
      · simp [indentedLines, hbreak, blockLines_break hc, hread]
      · simp [blockText, htext]
    · obtain ⟨lines, line', hread, htext⟩ := h.fromStart (line + 1)
      refine ⟨[], [c], lines, line', ?_, fun leadBlank => ?_⟩
      · simp [indentedLines, hbreak, blockContent, hread]
      · simp [htext]
  · rw [Bool.not_eq_true] at hbreak
    refine ⟨fun line => ?_, fun line column => ?_⟩
    · obtain ⟨content, lineBreak, lines, line', hread, htext⟩ := h.fromWithin line indent
      refine ⟨⟨some (c :: content), lineBreak⟩ :: lines, line', ?_, fun lead leadBlank empty => ?_⟩
      · simp [indentedLines, hbreak, blockLines_content hbreak, hread]
      · simp [blockText, blockGlue, htext]
    · obtain ⟨content, lineBreak, lines, line', hread, htext⟩ := h.fromWithin line (column + 1)
      refine ⟨c :: content, lineBreak, lines, line', ?_, fun leadBlank => ?_⟩
      · simp [indentedLines, hbreak, blockContent, hread]
      · simp [htext]

theorem ReadsLines.append (h : ReadsLines indent chomping rest cs) {front : List Char}
    (hfront : ∀ c ∈ front, isPrintable c = true) :
    ReadsLines indent chomping rest (front ++ cs) := by
  induction front with
  | nil => exact h
  | cons c front ih =>
    rw [List.forall_mem_cons] at hfront
    exact (ih hfront.2).cons hfront.1

/-- All ends of lines are kept. -/
theorem readsLines_keep (h : IsLine indent rest) (hc : isPrintable c = true)
    (hbreak : isBreak c = true) : ReadsLines indent .keep rest [c] := by
  refine ⟨fun line => ?_, fun line column => ?_⟩
  · refine ⟨[⟨none, [c]⟩], line + 1, ?_, fun lead leadBlank empty => by simp [blockText]⟩
    simp [indentedLines, hbreak, blockLines_break hc, blockLines_line h]
  · refine ⟨[], [c], [], line + 1, ?_, fun leadBlank => by simp [blockText]⟩
    simp [indentedLines, hbreak, blockContent, blockLines_line h]

/-- One end of a line is kept after a line that holds text. -/
theorem readsLines_clip (h : IsLine indent rest) (hc : isBreak c = false)
    (hbreak : isBreak d = true) : ReadsLines indent .clip rest [c, d] := by
  refine ⟨fun line => ?_, fun line column => ?_⟩
  · refine ⟨[⟨some [c], [d]⟩], line + 1, ?_, fun lead leadBlank empty => ?_⟩
    · simp [indentedLines, hc, hbreak, blockLines_content hc, blockContent, blockLines_line h]
    · simp [blockText, blockGlue]
  · refine ⟨[c], [d], [], line + 1, ?_, fun leadBlank => by simp [blockText]⟩
    simp [indentedLines, hc, hbreak, blockContent, blockLines_line h]

/-- The end of the last line is dropped. -/
theorem readsLines_strip (h : IsLine indent rest) (hc : isBreak c = false) :
    ReadsLines indent .strip rest [c] := by
  have hbreak : isBreak '\n' = true := by decide
  refine ⟨fun line => ?_, fun line column => ?_⟩
  · refine ⟨[⟨some [c], ['\n']⟩], line + 1, ?_, fun lead leadBlank empty => ?_⟩
    · simp [indentedLines, hc, hbreak, blockLines_content hc, blockContent, blockLines_line h]
    · simp [blockText, blockGlue]
  · refine ⟨[c], ['\n'], [], line + 1, ?_, fun leadBlank => by simp [blockText]⟩
    simp [indentedLines, hc, hbreak, blockContent, blockLines_line h]

/-- What a literal block says about its last ends of lines. -/
def chompingMark : Chomping → List Char
  | .strip => ['-']
  | .clip => []
  | .keep => ['+']

theorem exists_literalMarks (h : IsLine indent rest) (hcs : ∀ c ∈ cs, isPrintable c = true)
    (hne : cs ≠ []) : ∃ chomping, ReadsLines indent chomping rest cs ∧ ∀ indentation,
      literalMarks indentation cs =
        '|' :: ((if cs.head?.any fun c => isSpace c || isBreak c then Nat.toDigits 10 indentation
          else []) ++ chompingMark chomping) := by
  obtain ⟨front, c, rfl⟩ := List.eq_nil_or_concat' cs |>.resolve_left hne
  rw [List.forall_mem_append] at hcs
  obtain ⟨hfront, hc⟩ := hcs
  have hprintable := hc c (List.mem_singleton_self c)
  by_cases hbreak : isBreak c = true
  · rcases List.eq_nil_or_concat' front with rfl | ⟨front, d, rfl⟩
    · refine ⟨.keep, readsLines_keep h hprintable hbreak, ?_⟩
      simp [literalMarks, hbreak, chompingMark]
    · by_cases hd : isBreak d = true
      · refine ⟨.keep, (readsLines_keep h hprintable hbreak).append hfront, ?_⟩
        simp [literalMarks, hbreak, hd, chompingMark]
      · rw [Bool.not_eq_true] at hd
        rw [List.forall_mem_append] at hfront
        refine ⟨.clip, ?_, by simp [literalMarks, hbreak, hd, chompingMark]⟩
        simpa using (readsLines_clip h hd hbreak).append hfront.1
  · rw [Bool.not_eq_true] at hbreak
    refine ⟨.strip, (readsLines_strip h hbreak).append hfront, ?_⟩
    rcases List.eq_nil_or_concat' front with rfl | ⟨front, d, rfl⟩ <;>
      simp [literalMarks, hbreak, chompingMark]

/-- The header of a literal block is read up to the end of its line. -/
theorem ofText?_marks (isShown : Bool) (chomping : Chomping) (rest : List Char) :
    BlockHeader.ofText? ((if isShown then Nat.toDigits 10 scalarIndent else []) ++
      chompingMark chomping ++ '\n' :: rest) =
        some (⟨chomping, if isShown then some scalarIndent else none⟩, '\n' :: rest) := by
  cases isShown <;> cases chomping <;> rfl

theorem detectIndent?_spaces (most spaces k : Nat) (rest : List Char) :
    detectIndent? most spaces (List.replicate k ' ' ++ rest) =
      detectIndent? most (spaces + k) rest :=
  pass_spaces (detectIndent? most) (fun _ _ _ => rfl) rest

/-- The indentation is that of the first line unless the text begins with a blank. -/
theorem detectIndent?_indentedLines (hprintable : isPrintable c = true) (hspace : isSpace c = false)
    (hbreak : isBreak c = false) :
    detectIndent? 0 0 (indentedLines indent true (c :: cs) ++ rest) = some indent := by
  have hne : c ≠ ' ' := by simpa [isSpace] using hspace
  simp [indentedLines, hbreak, detectIndent?_spaces, detectIndent?, hne,
    ne_tab_of_isPrintable hprintable]

/-- After its header a literal block holds lines of one indentation. -/
theorem blockScalar_marks {isShown : Bool} {body : List Char} {lines : List BlockLine}
    {after : Cursor} (h : isShown = false → detectIndent? 0 0 body = some (column + scalarIndent))
    (hlines : blockLines (column + scalarIndent) 0 (line + 1) body = some (lines, after))
    (chomping : Chomping) :
    blockScalar false (column + 1) line ((if isShown then Nat.toDigits 10 scalarIndent else []) ++
      chompingMark chomping ++ '\n' :: body) =
        some (blockText false chomping [] false [] lines, after) := by
  have hheader : afterHeader? ('\n' :: body) = some body := rfl
  have hmax : max scalarIndent 1 = scalarIndent := rfl
  unfold blockScalar
  rw [ofText?_marks]
  cases isShown with
  | false => simp [hheader, h rfl, hmax, hlines]
  | true => simp [hheader, hlines]

theorem reads_literal {s : String} (hsafe : isLiteralSafe s.toList = true) (hne : s ≠ "")
    (h : IsLine (column + 1) rest) :
    Reads 2 column (' ' :: (literalMarks scalarIndent s.toList ++
      '\n' :: indentedLines (column + scalarIndent) true s.toList)) rest
        (.scalar none .literal s) := by
  simp only [isLiteralSafe, Bool.and_eq_true, List.all_eq_true] at hsafe
  obtain ⟨⟨hcs, -⟩, -⟩ := hsafe
  have hnil : s.toList ≠ [] := fun hnil => hne (String.toList_eq_nil_iff.mp hnil)
  have hline : IsLine (column + scalarIndent) rest := h.mono (by unfold scalarIndent; omega)
  obtain ⟨chomping, hlines, hmarks⟩ := exists_literalMarks hline hcs hnil
  have hshown : (s.toList.head?.any fun c => isSpace c || isBreak c) = false →
      detectIndent? 0 0 (indentedLines (column + scalarIndent) true s.toList ++ rest) =
        some (column + scalarIndent) := by
    obtain ⟨c, cs, hcons⟩ := List.exists_cons_of_ne_nil hnil
    rw [hcons] at hcs ⊢
    intro hstart
    obtain ⟨hspace, hbreak⟩ : isSpace c = false ∧ isBreak c = false := by simpa using hstart
    exact detectIndent?_indentedLines (hcs c List.mem_cons_self) hspace hbreak
  rw [hmarks]
  refine reads_inline (by simp [StartsScalar, isBlank, isBreak]) fun fuel line column' _ => ?_
  obtain ⟨lines, line', hread, htext⟩ := hlines.fromStart (line + 1)
  have hscalar := blockScalar_marks hshown hread chomping
  rw [htext, List.append_assoc] at hscalar
  refine ⟨_, line', ?_, leads_ofLine (.line h) line'⟩
  simp [inlineNode?, hscalar]

end Literal

/-- What would not be read as text is not written plainly. -/
theorem ofText_of_isAmbiguous {s : String} (h : isAmbiguous s = false) :
    s ≠ "" ∧ PlainValue.ofText s = .text := by
  have htext : PlainValue.ofText s = .text := by
    simpa using (Bool.or_eq_false_iff.mp h).2
  refine ⟨?_, htext⟩
  rintro rfl
  exact absurd htext (by decide)

/-- What is between quotes is read back, if there is no line feed. -/
theorem reads_quoted {s : String} (hbreak : s.toList.contains '\n' = false) (column : Nat) :
    ∃ style ≠ .plain, ∀ rest, Reads 2 column
      (' ' :: ((if isSingleQuotedSafe s.toList then singleQuoted (column + scalarIndent) s.toList
        else doubleQuoted s.toList) ++ ['\n'])) rest (.scalar none style s) := by
  split
  · next hsafe => exact ⟨.singleQuoted, by decide, reads_singleQuoted hsafe hbreak column⟩
  · exact ⟨.doubleQuoted, by decide, reads_doubleQuoted column s⟩

/-- A text is read back in whatever style it is written. Where it is plain it does not stand for
something else. -/
theorem reads_scalarLines (column : Nat) (s : String) : ∃ style,
    (style = .plain → PlainValue.ofText s = .text) ∧
      ∀ rest, IsLine (column + 1) rest →
        Reads 2 column (' ' :: scalarLines column s) rest (.scalar none style s) := by
  unfold scalarLines
  dsimp only
  split
  · next hbreak =>
    have hne : s ≠ "" := by
      rintro rfl
      contradiction
    split
    · next hsafe => exact ⟨.literal, by simp, fun rest h => reads_literal hsafe hne h⟩
    · exact ⟨.doubleQuoted, by simp, fun rest _ => reads_doubleQuoted column s rest⟩
  · next hbreak =>
    rw [Bool.not_eq_true] at hbreak
    obtain ⟨style, hstyle, hread⟩ := reads_quoted hbreak column
    split
    · exact ⟨style, fun h => absurd h hstyle, fun rest _ => hread rest⟩
    split
    · next hambiguous hsafe =>
      rw [Bool.not_eq_true] at hambiguous
      obtain ⟨hne, htext⟩ := ofText_of_isAmbiguous hambiguous
      exact ⟨.plain, fun _ => htext, fun rest h => reads_plain hsafe hne (.line h)⟩
    · exact ⟨style, fun h => absurd h hstyle, fun rest _ => hread rest⟩

/-- What would stand for nothing is quoted. -/
example : scalarLines 2 "null" = "'null'\n".toList := by decide

section Printable

variable {indent : Nat}

/-- Every character stands for itself in any style. -/
def Printable (cs : List Char) : Prop := ∀ c ∈ cs, isPrintable c = true

@[simp] theorem isPrintable_newline : isPrintable '\n' = true := by decide

@[simp] theorem isPrintable_space : isPrintable ' ' = true := by decide

@[simp] theorem printable_nil : Printable [] := by simp [Printable]

@[simp] theorem printable_cons :
    Printable (c :: cs) ↔ isPrintable c = true ∧ Printable cs := List.forall_mem_cons

@[simp] theorem printable_append {ds : List Char} :
    Printable (cs ++ ds) ↔ Printable cs ∧ Printable ds := List.forall_mem_append

theorem printable_flatMap {α : Type} {xs : List α} {f : α → List Char}
    (h : ∀ x ∈ xs, Printable (f x)) : Printable (xs.flatMap f) := by
  intro c hc
  obtain ⟨x, hx, hc⟩ := List.mem_flatMap.mp hc
  exact h x hx c hc

@[simp] theorem printable_spaces (k : Nat) : Printable (List.replicate k ' ') := by
  intro c hc
  rw [List.eq_of_mem_replicate hc, isPrintable_space]

theorem printable_of_isPlainSafe (h : isPlainSafe cs = true) : Printable cs := by
  simp only [isPlainSafe, Bool.and_eq_true, List.all_eq_true] at h
  exact fun c hc => (h.2 c hc).1

theorem isPrintable_digitChar :
    ∀ d < 16, isPrintable d.digitChar = true ∧ isPrintable d.digitChar.toUpper = true := by decide

theorem printable_toDigits (n : Nat) : Printable (Nat.toDigits 10 n) := by
  induction n using Nat.strongRecOn with
  | ind n ih =>
    rcases Nat.lt_or_ge n 10 with hlt | hge
    · rw [Nat.toDigits_of_lt_base hlt]
      simp [(isPrintable_digitChar n (by omega)).1]
    · rw [Nat.toDigits_of_base_le (by decide) hge]
      simp [ih (n / 10) (by omega), (isPrintable_digitChar (n % 10) (by omega)).1]

theorem printable_singleQuotedRest (h : Printable cs) (atStart : Bool) :
    Printable (singleQuotedRest indent atStart cs) := by
  have hquote : isPrintable '\'' = true := by decide
  induction cs generalizing atStart with
  | nil => cases atStart <;> simp [singleQuotedRest, hquote]
  | cons c cs ih =>
    rw [printable_cons] at h
    rw [singleQuotedRest]
    have hchar : Printable (if c = '\'' then ['\'', '\''] else [c]) := by
      split
      · simp [hquote]
      · simp [h]
    split
    · simp [h, ih]
    · cases atStart <;> simp [h, ih, hchar]

theorem printable_indentedLines (h : Printable cs) (atStart : Bool) :
    Printable (indentedLines indent atStart cs) := by
  induction cs generalizing atStart with
  | nil => cases atStart <;> simp [indentedLines]
  | cons c cs ih =>
    rw [printable_cons] at h
    rw [indentedLines]
    split
    · simp [h, ih]
    · cases atStart <;> simp [h, ih]

theorem printable_hexUpper {n : Nat} (width : Nat) (hwidth : 0 < width) (hn : n < 16 ^ width) :
    Printable (hexUpper width n) := by
  obtain ⟨digits, -, hdigits, -, htext⟩ := exists_hexUpper hwidth hn
  rw [htext]
  intro c hc
  obtain ⟨d, hd, rfl⟩ := List.mem_map.mp hc
  exact (isPrintable_digitChar d (hdigits d hd)).2

theorem printable_doubleQuotedChar (c : Char) : Printable (doubleQuotedChar c) := by
  have hslash : isPrintable '\\' = true := by decide
  unfold doubleQuotedChar
  split
  · next h => simp_all
  split
  · next letter hletter =>
    simp [hslash, (simpleEscape?_escapeLetter hletter).1]
  have hmarks : isPrintable 'x' = true ∧ isPrintable 'u' = true ∧ isPrintable 'U' = true := by
    decide
  split
  · simp [hslash, hmarks, printable_hexUpper (n := c.toNat) 2 (by decide) (by omega)]
  split
  · simp [hslash, hmarks, printable_hexUpper (n := c.toNat) 4 (by decide) (by omega)]
  · have hvalid : c.toNat.isValidChar := c.valid
    unfold Nat.isValidChar at hvalid
    simp [hslash, hmarks, printable_hexUpper (n := c.toNat) 8 (by decide) (by omega)]

theorem printable_doubleQuoted (cs : List Char) : Printable (doubleQuoted cs) := by
  have hquote : isPrintable '"' = true := by decide
  have hbody : Printable (cs.flatMap doubleQuotedChar) :=
    printable_flatMap fun c _ => printable_doubleQuotedChar c
  simp [doubleQuoted, hquote, hbody]

theorem printable_literalMarks (indentation : Nat) (cs : List Char) :
    Printable (literalMarks indentation cs) := by
  have hmarks : isPrintable '|' = true ∧ isPrintable '+' = true ∧ isPrintable '-' = true := by
    decide
  unfold literalMarks
  rw [printable_append, printable_cons]
  refine ⟨⟨hmarks.1, ?_⟩, ?_⟩
  · split
    · exact printable_toDigits indentation
    · exact printable_nil
  · repeat' split
    all_goals simp [hmarks]

/-- Whatever the text is, only printable characters are written. -/
theorem printable_scalarLines (indent : Nat) (s : String) : Printable (scalarLines indent s) := by
  have hquote : isPrintable '\'' = true := by decide
  have hdouble := printable_doubleQuoted s.toList
  have hquoted : Printable (if isSingleQuotedSafe s.toList then
      singleQuoted (indent + scalarIndent) s.toList else doubleQuoted s.toList) := by
    split
    · next hsafe =>
      simp only [isSingleQuotedSafe, Bool.and_eq_true, List.all_eq_true] at hsafe
      simp [singleQuoted, printable_singleQuotedRest hsafe.1.1, hquote]
    · exact hdouble
  unfold scalarLines
  dsimp only
  split
  · split
    · next hsafe =>
      simp only [isLiteralSafe, Bool.and_eq_true, List.all_eq_true] at hsafe
      simp [printable_literalMarks, printable_indentedLines hsafe.1.1]
    · simp [hdouble]
  split
  · rw [printable_append]
    simp [hquoted]
  split
  · next hsafe => simp [printable_of_isPlainSafe hsafe]
  · rw [printable_append]
    simp [hquoted]

end Printable

end RowReplay.Yaml
