import Mathlib.Algebra.Group.Nat.Defs
import Mathlib.Data.List.Basic
import RowReplay.Yaml.Printer
import RowReplay.Yaml.Reader

/-!
Scalars that are written within a line. A text is written plainly, in single or in double quotes; in
each style it is read as the same text, and the lines that follow come next.
-/
namespace RowReplay.Yaml

variable {c d : Char} {cs rest seen : List Char} {least line column : Nat}

theorem ne_of_isLower (hc : c.isLower = true) (hd : d.isLower = false) : c ≠ d := by
  rintro rfl
  exact Bool.false_ne_true (hd.symm.trans hc)

theorem isBlank_of_isLower (hc : c.isLower = true) : isBlank c = false := by
  simp [isBlank, ne_of_isLower hc]

theorem isBreak_of_isLower (hc : c.isLower = true) : isBreak c = false := by
  simp [isBreak, ne_of_isLower hc]

theorem ne_of_isPrintable (hc : isPrintable c = true) (hd : isPrintable d = false) : c ≠ d := by
  rintro rfl
  exact Bool.false_ne_true (hd.symm.trans hc)

theorem ne_tab_of_isPrintable (hc : isPrintable c = true) : c ≠ '\t' :=
  ne_of_isPrintable hc (by decide)

/-- Of blanks only spaces are printable. -/
theorem isBlank_of_isPrintable (hc : isPrintable c = true) : isBlank c = isSpace c := by
  simp [isBlank, isSpace, ne_tab_of_isPrintable hc]

theorem endsWord_append_break (cs rest : List Char) :
    endsWord (cs ++ '\n' :: rest) = endsWord cs := by
  cases cs <;> rfl

/-- Spaces that are passed one by one are passed together. -/
theorem pass_spaces {α : Type} (pass : Nat → List Char → α) {n k : Nat}
    (h : ∀ m < n + k, ∀ rest, pass m (' ' :: rest) = pass (m + 1) rest) (rest : List Char) :
    pass n (List.replicate k ' ' ++ rest) = pass (n + k) rest := by
  induction k generalizing n with
  | zero => rfl
  | succ k ih =>
    rw [List.replicate_succ, List.cons_append, h n (by omega),
      ih (n := n + 1) fun m hm => h m (by omega)]
    congr 1
    omega

namespace Cursor

/-- The next place where something is written, from the start of a line. -/
def ofLine (line : Nat) (rest : List Char) : Cursor := skip false false false line 0 rest

@[simp] theorem ofLine_break (line : Nat) (rest : List Char) :
    ofLine line ('\n' :: rest) = ofLine (line + 1) rest := rfl

theorem skip_spaces (tabs : Bool) (line column k : Nat) (rest : List Char) :
    skip false tabs false line column (List.replicate k ' ' ++ rest) =
      skip false tabs false line (column + k) rest :=
  pass_spaces (skip false tabs false line) (fun _ _ _ => rfl) rest

/-- Nothing is passed where something is written. -/
theorem skip_of_visible (hblank : isBlank c = false) (hbreak : isBreak c = false) (hc : c ≠ '#')
    (tabs : Bool) (line column : Nat) (rest : List Char) :
    skip false tabs false line column (c :: rest) = ⟨line, column, c :: rest⟩ := by
  simp only [isBlank, Bool.or_eq_false_iff, decide_eq_false_iff_not] at hblank
  simp [skip, hbreak, hblank, hc]

end Cursor

open Cursor

/-- A line comes that begins with a letter left of a column. -/
def IsLine (least : Nat) (rest : List Char) : Prop :=
  ∃ k c more, k < least ∧ c.isLower = true ∧ rest = List.replicate k ' ' ++ c :: more

/-- What comes does not go on with a node: ends of lines to the end of the text, or a line that
begins left of the node. -/
inductive Below (least : Nat) : List Char → Prop
  | nil : Below least []
  | newline {rest : List Char} : Below least rest → Below least ('\n' :: rest)
  | line {rest : List Char} : IsLine least rest → Below least rest

theorem IsLine.mono {least' : Nat} (h : IsLine least rest) (hle : least ≤ least') :
    IsLine least' rest := by
  obtain ⟨k, c, more, hk, hc, hrest⟩ := h
  exact ⟨k, c, more, Nat.lt_of_lt_of_le hk hle, hc, hrest⟩

theorem Below.mono {least' : Nat} (h : Below least rest) (hle : least ≤ least') :
    Below least' rest := by
  induction h with
  | nil => exact .nil
  | newline _ ih => exact .newline ih
  | line h => exact .line (h.mono hle)

theorem ofLine_indented (hc : c.isLower = true) (line k : Nat) (rest : List Char) :
    ofLine line (List.replicate k ' ' ++ c :: rest) = ⟨line, k, c :: rest⟩ := by
  rw [ofLine, skip_spaces, Nat.zero_add, skip_of_visible (isBlank_of_isLower hc)
    (isBreak_of_isLower hc) (ne_of_isLower hc rfl)]

/-- At the next place nothing is left, or a line begins there. -/
theorem Below.ofLine_cases (h : Below least rest) (line : Nat) :
    (∃ line', ofLine line rest = ⟨line', 0, []⟩) ∨
      ∃ line' k c more, k < least ∧ c.isLower = true ∧
        ofLine line rest = ⟨line', k, c :: more⟩ := by
  induction h generalizing line with
  | nil => exact .inl ⟨line, rfl⟩
  | newline _ ih => exact ih (line + 1)
  | line h =>
    obtain ⟨k, c, more, hk, hc, rfl⟩ := h
    exact .inr ⟨line, k, c, more, hk, hc, ofLine_indented hc line k more⟩

/-- The lines that follow are next at a place after a node, and no colon is. -/
structure Cursor.Leads (c : Cursor) (line : Nat) (rest : List Char) : Prop where
  next_eq : c.next true = ofLine line rest
  afterColon?_eq : ∀ key, afterColon? false key c = none

theorem Cursor.leads_break (line column : Nat) (rest : List Char) :
    Leads ⟨line, column, '\n' :: rest⟩ (line + 1) rest := ⟨rfl, fun _ => rfl⟩

theorem Cursor.leads_ofLine (h : Below least rest) (line : Nat) :
    (ofLine line rest).Leads line rest := by
  obtain ⟨line', heq⟩ | ⟨line', k, c, more, -, hc, heq⟩ := h.ofLine_cases line
  · refine ⟨?_, fun key => ?_⟩ <;>
    · rw [heq]
      rfl
  · have hblank := isBlank_of_isLower hc
    refine ⟨?_, fun key => ?_⟩
    · rw [heq]
      exact skip_of_visible hblank (isBreak_of_isLower hc) (ne_of_isLower hc rfl) ..
    · have hcolon := ne_of_isLower hc (show ':'.isLower = false by rfl)
      simp [heq, afterColon?, afterBlanks, hblank, forward, hcolon]

section Plain

theorem plainFrom_spaces (first : Option Char) (more : List Char) (line column k : Nat)
    (rest : List Char) :
    plainFrom false least (.breaks first more) line column (List.replicate k ' ' ++ rest) =
      plainFrom false least (.breaks first more) line (column + k) rest :=
  pass_spaces (plainFrom false least (.breaks first more) line) (fun _ _ _ => rfl) rest

/-- A plain scalar does not go on below. -/
theorem plainFrom_below (h : Below least rest) (first : Option Char) (more : List Char)
    (line : Nat) :
    plainFrom false least (.breaks first more) line 0 rest = some ([], ofLine line rest) := by
  induction h generalizing line more with
  | nil => rfl
  | newline _ ih =>
    rw [ofLine_break, ← ih (more ++ ['\n']) (line + 1)]
    rfl
  | line h =>
    obtain ⟨k, c, text, hk, hc, rfl⟩ := h
    rw [plainFrom_spaces, ofLine_indented hc, Nat.zero_add]
    simp [plainFrom, isBreak_of_isLower hc, isBlank_of_isLower hc, endsPlainAfter, Gap.isNone,
      Gap.crossed, hk]

/-- A plain scalar goes on with a character that is no mark there. -/
theorem plainFrom_visible (hblank : isBlank c = false) (hbreak : isBreak c = false)
    (hhash : seen ≠ [] → c ≠ '#' ∧ 0 < column) (hcolon : c = ':' → endsWord rest = false)
    (line : Nat) :
    plainFrom false least (.blanks seen) line column (c :: rest) =
      (plainFrom false least .none line (column + 1) rest).map fun (text, cursor) =>
        (seen ++ c :: text, cursor) := by
  have hends : endsPlainAfter false least (.blanks seen) column (c :: rest) = false := by
    by_cases hseen : seen = []
    · simp [endsPlainAfter, hseen, Gap.isNone]
    · obtain ⟨hne, hcolumn⟩ := hhash hseen
      simp [endsPlainAfter, hne, Gap.crossed, Nat.ne_of_gt hcolumn]
  have hplain : endsPlain false c rest = false := by
    by_cases hc : c = ':'
    · simp [endsPlain, hcolon hc]
    · simp [endsPlain, hc]
  simp [plainFrom, hblank, hbreak, hends, isStrayColon, hplain, Gap.text]

/-- Within a plain scalar, after blanks that have been passed. -/
theorem plainFrom_blanks {afterBlank : Bool} (seen : List Char) (h : Below least rest)
    (hmark : hasMark afterBlank cs = false) (hseen : seen ≠ [] → afterBlank = true)
    (hcs : ∀ c ∈ cs, isPrintable c = true ∧ isBreak c = false)
    (hlast : ∀ c ∈ cs.getLast?, isSpace c = false) (hcolumn : 0 < column) (line : Nat) :
    plainFrom false least (.blanks seen) line column (cs ++ '\n' :: rest) =
      some (if cs = [] then [] else seen ++ cs, ofLine (line + 1) rest) := by
  induction cs generalizing seen column afterBlank with
  | nil => exact plainFrom_below h (some '\n') [] (line + 1)
  | cons c cs ih =>
    rw [List.forall_mem_cons] at hcs
    obtain ⟨⟨hprintable, hbreak⟩, hcs⟩ := hcs
    simp only [hasMark, Bool.or_eq_false_iff, Bool.and_eq_false_imp, decide_eq_true_eq,
      hbreak, Bool.or_false] at hmark
    obtain ⟨⟨hcolon, hhash⟩, hmark⟩ := hmark
    have hlast' : ∀ d ∈ cs.getLast?, isSpace d = false := by
      intro d hd
      refine hlast d ?_
      rw [List.getLast?_cons, Option.mem_def.mp hd]
      rfl
    by_cases hblank : isBlank c = true
    · have hne : cs ≠ [] := by
        rintro rfl
        have hspace := hlast c rfl
        rw [← isBlank_of_isPrintable hprintable, hblank] at hspace
        exact Bool.false_ne_true hspace.symm
      have hstep : plainFrom false least (.blanks seen) line column (c :: (cs ++ '\n' :: rest)) =
          plainFrom false least (.blanks (seen ++ [c])) line (column + 1) (cs ++ '\n' :: rest) := by
        simp [plainFrom, hbreak, hblank, ne_tab_of_isPrintable hprintable, Gap.addBlank]
      rw [List.cons_append, hstep,
        ih (seen ++ [c]) hmark (fun _ => hblank) hcs hlast' (Nat.succ_pos column)]
      simp [hne]
    · rw [Bool.not_eq_true] at hblank
      have hmore := ih [] hmark (fun hnil => absurd rfl hnil) hcs hlast'
        (Nat.succ_pos column)
      rw [List.cons_append, plainFrom_visible hblank hbreak
        (fun hne => ⟨fun hc => Bool.false_ne_true ((hhash hc).symm.trans (hseen hne)), hcolumn⟩)
        (fun hc => (endsWord_append_break cs rest).trans (hcolon hc)), Gap.none, hmore]
      cases cs <;> simp

end Plain

section SingleQuoted

variable {p q : Char → Bool} {gap : Gap} {atStart : Bool} {indent : Nat}

theorem hasPair_append_right (xs : List Char) (h : hasPair p q (xs ++ cs) = false) :
    hasPair p q cs = false := by
  induction xs with
  | nil => exact h
  | cons x xs ih =>
    refine ih ?_
    cases hxs : xs ++ cs with
    | nil => rfl
    | cons y ys =>
      rw [List.cons_append, hxs] at h
      exact (Bool.or_eq_false_iff.mp h).2

theorem hasPair_of_forall {xs : List Char} (hne : xs ≠ []) (hxs : ∀ x ∈ xs, p x = true)
    (hc : q c = true) (cs : List Char) : hasPair p q (xs ++ c :: cs) = true := by
  obtain ⟨front, x, rfl⟩ := List.eq_nil_or_concat' xs |>.resolve_left hne
  have hx := hxs x (by simp)
  by_contra h
  rw [Bool.not_eq_true, List.append_assoc] at h
  have hpair := hasPair_append_right front h
  simp [hasPair, hx, hc] at hpair

theorem gap_text_breaks (hc : c ≠ '\n') (more : List Char) :
    (Gap.breaks (some c) more).text = c :: more := by
  unfold Gap.text
  split <;> simp_all

/-- What has been passed between quotes: spaces of this line or, at the start of a line, ends of
lines of which the first is no line feed. -/
inductive Passed : Bool → Gap → Prop
  | blanks {seen : List Char} : (∀ c ∈ seen, isSpace c = true) → Passed false (.blanks seen)
  | breaks {b : Char} {more : List Char} : b ≠ '\n' → (∀ c ∈ b :: more, isBreak c = true) →
      Passed true (.breaks (some b) more)

theorem passed_none : Passed false .none := .blanks (by simp)

/-- A break may follow what is no space. -/
theorem Passed.addBreak (h : Passed atStart gap) (hc : isBreak c = true) (hne : c ≠ '\n')
    (hpair : hasPair isSpace isBreak (gap.text ++ c :: cs) = false) :
    Passed true (gap.addBreak c) ∧ gap.text ++ c :: cs = (gap.addBreak c).text ++ cs := by
  cases h with
  | @blanks seen hseen =>
    have hnil : seen = [] := by
      by_contra hseen'
      exact Bool.false_ne_true (hpair.symm.trans (hasPair_of_forall hseen' hseen hc cs))
    subst hnil
    exact ⟨.breaks hne (by simpa using hc), congrArg (· ++ cs) (gap_text_breaks hne []).symm⟩
  | @breaks b more hb hbreaks =>
    refine ⟨.breaks hb fun d hd => ?_, ?_⟩
    · rw [List.mem_cons, List.mem_append, List.mem_singleton, ← or_assoc, ← List.mem_cons] at hd
      rcases hd with hd | rfl
      · exact hbreaks d hd
      · exact hc
    · simp [Gap.addBreak, gap_text_breaks hb]

/-- A space may follow what is no break. -/
theorem Passed.addBlank (h : Passed atStart gap) (hc : isSpace c = true)
    (hpair : hasPair isBreak isSpace (gap.text ++ c :: cs) = false) :
    atStart = false ∧ Passed false (gap.addBlank c) ∧
      gap.text ++ c :: cs = (gap.addBlank c).text ++ cs := by
  cases h with
  | @blanks seen hseen =>
    refine ⟨rfl, .blanks fun d hd => ?_, by simp [Gap.text, Gap.addBlank]⟩
    rcases List.mem_append.mp hd with hd | hd
    · exact hseen d hd
    · exact List.mem_singleton.mp hd ▸ hc
  | @breaks b more hb hbreaks =>
    rw [gap_text_breaks hb] at hpair
    have hmarks := hasPair_of_forall (List.cons_ne_nil b more) hbreaks hc cs
    exact absurd (hpair.symm.trans hmarks) Bool.false_ne_true

theorem singleFrom_spaces (first : Option Char) (more : List Char) (line column k : Nat)
    (rest : List Char) :
    singleFrom false (.breaks first more) line column (List.replicate k ' ' ++ rest) =
      singleFrom false (.breaks first more) line (column + k) rest :=
  pass_spaces (singleFrom false (.breaks first more) line) (fun _ _ _ => rfl) rest

theorem breaksQuote_eq_false (h : gap.crossed = true → 0 < column) (cs : List Char) :
    breaksQuote gap column cs = false := by
  cases hcrossed : gap.crossed with
  | false => simp [breaksQuote, hcrossed]
  | true => simp [breaksQuote, Nat.ne_of_gt (h hcrossed)]

/-- The indentation of a line between quotes is passed over. -/
theorem Passed.singleFrom_indent (h : Passed atStart gap) (hindent : 0 < indent)
    (line column : Nat) (rest : List Char) :
    ∃ column', (gap.crossed = true → 0 < column') ∧
      singleFrom false gap line column
        ((if atStart then List.replicate indent ' ' else []) ++ rest) =
          singleFrom false gap line column' rest := by
  cases h with
  | blanks => exact ⟨column, by simp [Gap.crossed], rfl⟩
  | breaks => exact ⟨column + indent, fun _ => by omega, singleFrom_spaces ..⟩

/-- A character between single quotes that is no blank, as it is written. -/
theorem singleFrom_char (hblank : isBlank c = false) (hbreak : isBreak c = false)
    (hgap : gap.crossed = true → 0 < column) (line : Nat) (rest : List Char) :
    ∃ column', singleFrom false gap line column
      ((if c = '\'' then ['\'', '\''] else [c]) ++ rest) =
        (singleFrom false .none line column' rest).map fun (text, cursor) =>
          (gap.text ++ c :: text, cursor) := by
  by_cases hquote : c = '\''
  · subst hquote
    exact ⟨column + 1 + 1, by simp [singleFrom, isBreak, isBlank, breaksQuote_eq_false hgap]; rfl⟩
  · exact ⟨column + 1, by simp [hquote, singleFrom, hblank, hbreak, breaksQuote_eq_false hgap]⟩

/-- Such a character after the indentation of its line, if it is the first there. -/
theorem Passed.singleFrom_visible (h : Passed atStart gap) (hindent : 0 < indent)
    (hblank : isBlank c = false) (hbreak : isBreak c = false) (line column : Nat)
    (rest : List Char) :
    ∃ column', singleFrom false gap line column
      ((if atStart then List.replicate indent ' ' else []) ++
        ((if c = '\'' then ['\'', '\''] else [c]) ++ rest)) =
          (singleFrom false .none line column' rest).map fun (text, cursor) =>
            (gap.text ++ c :: text, cursor) := by
  obtain ⟨column₁, hcolumn, hspaces⟩ := h.singleFrom_indent hindent line column
    ((if c = '\'' then ['\'', '\''] else [c]) ++ rest)
  obtain ⟨column', hchar⟩ := singleFrom_char hblank hbreak hcolumn line rest
  exact ⟨column', hspaces.trans hchar⟩

/-- Text between single quotes is read from what has been passed on. -/
theorem Passed.singleFrom_rest (h : Passed atStart gap) (hindent : 0 < indent)
    (hcs : ∀ c ∈ cs, isPrintable c = true ∧ c ≠ '\n')
    (hbefore : hasPair isSpace isBreak (gap.text ++ cs) = false)
    (hafter : hasPair isBreak isSpace (gap.text ++ cs) = false) (line column : Nat)
    (rest : List Char) :
    ∃ line' column', singleFrom false gap line column
      (singleQuotedRest indent atStart cs ++ '\n' :: rest) =
        some (gap.text ++ cs, ⟨line', column', '\n' :: rest⟩) := by
  induction cs generalizing gap atStart line column with
  | nil =>
    obtain ⟨column', hcolumn, hspaces⟩ := h.singleFrom_indent hindent line column
      ('\'' :: '\n' :: rest)
    have htext : singleQuotedRest indent atStart [] ++ '\n' :: rest =
        (if atStart then List.replicate indent ' ' else []) ++ '\'' :: '\n' :: rest := by
      cases atStart <;> simp [singleQuotedRest]
    refine ⟨line, column' + 1, ?_⟩
    rw [htext, hspaces]
    simp [singleFrom, isBreak, isBlank, breaksQuote_eq_false hcolumn]
  | cons c cs ih =>
    rw [List.forall_mem_cons] at hcs
    obtain ⟨⟨hprintable, hne⟩, hcs⟩ := hcs
    by_cases hbreak : isBreak c = true
    · obtain ⟨hpassed, happend⟩ := h.addBreak hbreak hne hbefore
      rw [happend] at hbefore hafter ⊢
      obtain ⟨line', column', hread⟩ := ih hpassed hcs hbefore hafter (line + 1) 0
      refine ⟨line', column', ?_⟩
      simp [singleQuotedRest, hbreak, singleFrom, hread]
    · rw [Bool.not_eq_true] at hbreak
      have htext : singleQuotedRest indent atStart (c :: cs) ++ '\n' :: rest =
          (if atStart then List.replicate indent ' ' else []) ++
            ((if c = '\'' then ['\'', '\''] else [c]) ++
              (singleQuotedRest indent false cs ++ '\n' :: rest)) := by
        simp [singleQuotedRest, hbreak]
      rw [htext]
      by_cases hspace : isSpace c = true
      · obtain ⟨rfl, hpassed, happend⟩ := h.addBlank hspace hafter
        rw [happend] at hbefore hafter ⊢
        obtain ⟨line', column', hread⟩ := ih hpassed hcs hbefore hafter line (column + 1)
        have hquote : c ≠ '\'' := by
          rintro rfl
          contradiction
        refine ⟨line', column', ?_⟩
        simp [hquote, singleFrom, hbreak, isBlank_of_isPrintable hprintable, hspace, hread]
      · rw [Bool.not_eq_true] at hspace
        have hblank := (isBlank_of_isPrintable hprintable).trans hspace
        obtain ⟨column', hchar⟩ := h.singleFrom_visible hindent hblank hbreak line column
          (singleQuotedRest indent false cs ++ '\n' :: rest)
        obtain ⟨line', column', hread⟩ := ih passed_none hcs
          (hasPair_append_right (gap.text ++ [c]) (by simpa [Gap.none, Gap.text] using hbefore))
          (hasPair_append_right (gap.text ++ [c]) (by simpa [Gap.none, Gap.text] using hafter))
          line column'
        exact ⟨line', column', by rw [hchar, hread]; rfl⟩

end SingleQuoted

section DoubleQuoted

theorem hexDigit?_upper : ∀ d < 16, Json.hexDigit? d.digitChar.toUpper = some d := by decide

/-- The value of hexadecimal digits after those before. -/
def hexValue (value : Nat) (digits : List Nat) : Nat := digits.foldl (fun n d => 16 * n + d) value

theorem hexValue_append (value : Nat) (digits more : List Nat) :
    hexValue value (digits ++ more) = hexValue (hexValue value digits) more := List.foldl_append

theorem exists_toDigits_hex (n : Nat) : ∃ digits : List Nat, (∀ d ∈ digits, d < 16) ∧
    hexValue 0 digits = n ∧ Nat.toDigits 16 n = digits.map Nat.digitChar := by
  induction n using Nat.strongRecOn with
  | ind n ih =>
    rcases Nat.lt_or_ge n 16 with hlt | hge
    · exact ⟨[n], by simpa using hlt, by simp [hexValue], Nat.toDigits_of_lt_base hlt⟩
    · obtain ⟨digits, hdigits, hvalue, htext⟩ := ih (n / 16) (by omega)
      refine ⟨digits ++ [n % 16], ?_, ?_, ?_⟩
      · intro d hd
        rcases List.mem_append.mp hd with hd | hd
        · exact hdigits d hd
        · rw [List.mem_singleton.mp hd]
          omega
      · rw [hexValue_append, hvalue]
        exact Nat.div_add_mod n 16
      · rw [Nat.toDigits_of_base_le (by decide) hge, htext]
        simp

/-- A number in hexadecimal digits, as many as the width. -/
theorem exists_hexUpper {width n : Nat} (hwidth : 0 < width) (hn : n < 16 ^ width) :
    ∃ digits : List Nat, digits.length = width ∧ (∀ d ∈ digits, d < 16) ∧ hexValue 0 digits = n ∧
      hexUpper width n = digits.map fun d => d.digitChar.toUpper := by
  obtain ⟨digits, hdigits, hvalue, htext⟩ := exists_toDigits_hex n
  have hlength := (Nat.length_toDigits_le_iff (by decide : 1 < 16) hwidth).mpr hn
  rw [htext, List.length_map] at hlength
  have hzeros (k : Nat) : hexValue 0 (List.replicate k 0) = 0 := by
    induction k with
    | zero => rfl
    | succ k ih => exact ih
  refine ⟨List.replicate (width - digits.length) 0 ++ digits, ?_, ?_, ?_, ?_⟩
  · rw [List.length_append, List.length_replicate]
    omega
  · intro d hd
    rcases List.mem_append.mp hd with hd | hd
    · rw [List.eq_of_mem_replicate hd]
      decide
    · exact hdigits d hd
  · rw [hexValue_append, hzeros, hvalue]
  · have hzero : '0'.toUpper = '0' := by decide
    simp [hexUpper, Text.hexPadded, htext, hzero, Nat.digitChar]

/-- A character is read from the digits of its number. -/
theorem doubleFrom_digits {digits : List Nat} (hne : digits ≠ []) (hdigits : ∀ d ∈ digits, d < 16)
    {value : Nat} (hc : hexValue value digits = c.toNat) (line column : Nat) (rest : List Char) :
    doubleFrom (.digits digits.length value) .none line column
      (digits.map (fun d => d.digitChar.toUpper) ++ rest) =
        (doubleFrom .text .none line (column + digits.length) rest).map fun (text, cursor) =>
          (c :: text, cursor) := by
  induction digits generalizing value column with
  | nil => contradiction
  | cons d digits ih =>
    rw [List.forall_mem_cons] at hdigits
    have hdigit := hexDigit?_upper d hdigits.1
    rw [List.map_cons, List.cons_append, doubleFrom, hdigit]
    cases digits with
    | nil =>
      have hmeant : charOf? (16 * value + d) = some c := by
        have hc : 16 * value + d = c.toNat := hc
        have hvalid : c.toNat.isValidChar := c.valid
        rw [hc, charOf?, if_pos hvalid, Char.ofNat_toNat]
      simp [hmeant]
    | cons e digits =>
      have hread := ih (List.cons_ne_nil e digits) hdigits.2 hc (column + 1)
      simp only [List.length_cons] at hread ⊢
      simpa [Nat.add_comm, Nat.add_left_comm] using hread

/-- What is written after a backslash stands for the character. -/
theorem simpleEscape?_escapeLetter (h : escapeLetter? c = some d) :
    isPrintable d = true ∧ isBreak d = false ∧ escapeWidth? d = none ∧
      simpleEscape? d = some c := by
  unfold escapeLetter? at h
  split at h
  case h_16 => contradiction
  all_goals
    next hc =>
      obtain rfl := Option.some.inj h
      rw [← Char.ofNat_toNat c, hc]
      decide

theorem doubleFrom_backslash (line column : Nat) (rest : List Char) :
    doubleFrom .text (.blanks seen) line column ('\\' :: rest) =
      (doubleFrom .escape .none line (column + 1) rest).map fun (text, cursor) =>
        (seen ++ text, cursor) := by
  simp [doubleFrom, isBreak, isBlank, breaksQuote, Gap.crossed, Gap.text]

/-- A character by its number. -/
theorem doubleFrom_numbered {width : Nat} (hmark : escapeWidth? d = some width)
    (hbreak : isBreak d = false) (hwidth : 0 < width) (hc : c.toNat < 16 ^ width)
    (line column : Nat) (rest : List Char) :
    doubleFrom .text (.blanks seen) line column ('\\' :: d :: hexUpper width c.toNat ++ rest) =
      (doubleFrom .text .none line (column + 1 + 1 + width) rest).map fun (text, cursor) =>
        (seen ++ c :: text, cursor) := by
  obtain ⟨digits, hlength, hdigits, hvalue, htext⟩ := exists_hexUpper hwidth hc
  have hne : digits ≠ [] := List.ne_nil_of_length_pos (hlength ▸ hwidth)
  have hread := doubleFrom_digits hne hdigits hvalue line (column + 1 + 1) rest
  rw [hlength] at hread
  rw [htext, List.cons_append, List.cons_append, doubleFrom_backslash, doubleFrom]
  simp [hbreak, hmark, hread, Function.comp_def]

/-- A character between double quotes that is no space, as it is written. -/
theorem doubleFrom_char (hc : isSpace c = false) (seen : List Char) (line column : Nat)
    (rest : List Char) :
    ∃ column', doubleFrom .text (.blanks seen) line column (doubleQuotedChar c ++ rest) =
      (doubleFrom .text .none line column' rest).map fun (text, cursor) =>
        (seen ++ c :: text, cursor) := by
  unfold doubleQuotedChar
  split
  · next h =>
    simp only [Bool.and_eq_true, Bool.not_eq_true', decide_eq_true_eq] at h
    obtain ⟨⟨⟨hprintable, hbreak⟩, hquote⟩, hslash⟩ := h
    have hblank := (isBlank_of_isPrintable hprintable).trans hc
    refine ⟨column + 1, ?_⟩
    simp [doubleFrom, hbreak, hblank, breaksQuote, Gap.crossed, hquote, hslash, Gap.text]
  split
  · next letter hletter =>
    obtain ⟨-, hbreak, hwidth, hmeant⟩ := simpleEscape?_escapeLetter hletter
    refine ⟨column + 1 + 1, ?_⟩
    rw [List.cons_append, List.cons_append, List.nil_append, doubleFrom_backslash, doubleFrom]
    simp [hbreak, hwidth, hmeant, Function.comp_def]
  split
  · exact ⟨_, doubleFrom_numbered rfl rfl (by decide) (by omega) line column rest⟩
  split
  · exact ⟨_, doubleFrom_numbered rfl rfl (by decide) (by omega) line column rest⟩
  · have hvalid : c.toNat.isValidChar := c.valid
    unfold Nat.isValidChar at hvalid
    exact ⟨_, doubleFrom_numbered rfl rfl (by decide) (by omega) line column rest⟩

/-- Text between double quotes is read from the spaces that have been passed on. -/
theorem doubleFrom_rest (cs : List Char) (seen : List Char) (line column : Nat)
    (rest : List Char) :
    ∃ column', doubleFrom .text (.blanks seen) line column
      (cs.flatMap doubleQuotedChar ++ '"' :: rest) = some (seen ++ cs, ⟨line, column', rest⟩) := by
  induction cs generalizing seen column with
  | nil =>
    exact ⟨column + 1, by simp [doubleFrom, isBreak, isBlank, breaksQuote, Gap.crossed, Gap.text]⟩
  | cons c cs ih =>
    rw [List.flatMap_cons, List.append_assoc]
    by_cases hc : isSpace c = true
    · obtain rfl : c = ' ' := by simpa [isSpace] using hc
      obtain ⟨column', hread⟩ := ih (seen ++ [' ']) (column + 1)
      have hstep : doubleFrom .text (.blanks seen) line column
          (doubleQuotedChar ' ' ++ (cs.flatMap doubleQuotedChar ++ '"' :: rest)) =
          doubleFrom .text (.blanks (seen ++ [' '])) line (column + 1)
            (cs.flatMap doubleQuotedChar ++ '"' :: rest) := rfl
      exact ⟨column', by rw [hstep, hread, List.append_assoc]; rfl⟩
    · rw [Bool.not_eq_true] at hc
      obtain ⟨column₁, hchar⟩ := doubleFrom_char hc seen line column
        (cs.flatMap doubleQuotedChar ++ '"' :: rest)
      obtain ⟨column', hread⟩ := ih [] column₁
      exact ⟨column', by rw [hchar, Gap.none, hread]; rfl⟩

end DoubleQuoted

end RowReplay.Yaml
