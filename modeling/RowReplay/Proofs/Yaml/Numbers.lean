import RowReplay.Proofs.Json.Numerals
import RowReplay.Proofs.Yaml.Scalars

/-!
Numbers as plain scalars: the text of a whole or of a floating number is safe to be written plainly,
and what it stands for is that number.
-/
namespace RowReplay

variable {c : Char} {cs : List Char} {n : Nat}

open Numeral

section Layout

def isNoPlus (c : Char) : Bool := c ≠ '+'

theorem AllDigits.filter_isNoPlus (h : AllDigits cs) : cs.filter isNoPlus = cs := by
  rw [List.filter_eq_self]
  intro c hc
  have hdigit := h c hc
  simp only [isNoPlus, decide_eq_true_eq]
  rintro rfl
  contradiction

/-- The text of a numeral without the plus of its exponent. -/
def Numeral.kept (num : Numeral) : List Char :=
  num.whole ++ pointText num.fraction ++ exponentKept num.exponent

theorem Numeral.filter_isNoPlus_text (num : Numeral) : num.text.filter isNoPlus = num.kept := by
  have hpoint : (pointText num.fraction).filter isNoPlus = pointText num.fraction := by
    have hfraction := num.fraction_digits.filter_isNoPlus
    cases hf : num.fraction with
    | nil => rfl
    | cons c cs =>
      rw [hf] at hfraction
      rw [pointText, List.filter_cons_of_pos (by decide), hfraction]
      simp
  have hexponent : (exponentText num.exponent).filter isNoPlus = exponentKept num.exponent := by
    cases num.exponent with
    | none => rfl
    | some e =>
      have hdigits := (allDigits_toDigits e.natAbs).filter_isNoPlus
      by_cases he : 0 ≤ e <;> simp [exponentText, exponentKept, he, hdigits, isNoPlus]
  rw [Numeral.text, Numeral.kept, List.filter_append, List.filter_append, hpoint, hexponent,
    num.whole_digits.filter_isNoPlus, List.append_assoc]

/-- The layouts of both formats differ in the plus only. -/
theorem NumeralLayout.toList_yaml_decimalText (d : Decimal) :
    (yaml.decimalText d).toList = (json.decimalText d).toList.filter isNoPlus := by
  have hdigits := allDigits_toDigits d.digits
  generalize hds : Nat.toDigits 10 d.digits = ds at hdigits
  have hpoint : isNoPlus '.' = true := by decide
  have hzero : isNoPlus '0' = true := by decide
  unfold decimalText
  rw [hds]
  dsimp only [yaml, json]
  split
  · generalize (ds.length : Int) + d.exponent - 1 = e
    have hmantissa : (if (ds.drop 1).isEmpty then ds.take 1
        else ds.take 1 ++ '.' :: ds.drop 1).filter isNoPlus =
          if (ds.drop 1).isEmpty then ds.take 1 else ds.take 1 ++ '.' :: ds.drop 1 := by
      split
      · exact (hdigits.take 1).filter_isNoPlus
      · rw [List.filter_append, List.filter_cons_of_pos hpoint, (hdigits.take 1).filter_isNoPlus,
          (hdigits.drop 1).filter_isNoPlus]
    have hmark : (if 0 ≤ e then "+" else "-").toList.filter isNoPlus =
        (if 0 ≤ e then "" else "-").toList := by
      split <;> rfl
    have hexponent : (toString e.natAbs).toList.filter isNoPlus = (toString e.natAbs).toList := by
      simpa using (allDigits_toDigits e.natAbs).filter_isNoPlus
    have hletter : "e".toList.filter isNoPlus = "e".toList := rfl
    simp only [String.toList_append, String.toList_ofList, List.filter_append, hmantissa, hletter,
      hmark, hexponent]
  split
  · simp [List.filter_append, hdigits.filter_isNoPlus, (allDigits_zeros _).filter_isNoPlus,
      hpoint, hzero]
  split
  · simp [List.filter_append, hpoint, (hdigits.take _).filter_isNoPlus,
      (hdigits.drop _).filter_isNoPlus]
  · simp [List.filter_append, hpoint, hzero, hdigits.filter_isNoPlus,
      (allDigits_zeros _).filter_isNoPlus]

/-- The text of a number that is finite and has no minus is a numeral that is read as it. -/
theorem exists_yamlText_eq (m : Magnitude) : ∃ num : Numeral,
    (NumeralLayout.yaml.text (.finite false m)).toList = num.kept ∧ num.IsFloating ∧
      num.value false = .finite false m := by
  obtain ⟨num, htext, hfloating, hvalue⟩ := Json.exists_floatText_eq false m
  refine ⟨num, ?_, hfloating, hvalue⟩
  have hsame : (NumeralLayout.yaml.text (.finite false m)).toList =
      (Json.floatText (.finite false m)).toList.filter isNoPlus := by
    unfold Json.floatText NumeralLayout.text
    have htiesUp : NumeralLayout.yaml.tiesUp = NumeralLayout.json.tiesUp := rfl
    by_cases hm : m.units = 0
    · simp only [hm, if_true]
      rfl
    · simp [hm, htiesUp, NumeralLayout.toList_yaml_decimalText]
  rw [hsame, htext]
  exact num.filter_isNoPlus_text

end Layout

namespace Yaml

section Reading

variable {s : String}

/-- The words that a plain scalar is looked up in. -/
def plainWords : List String :=
  ["", "null", "Null", "NULL", "~", "true", "True", "TRUE", "false", "False", "FALSE", ".inf",
    ".Inf", ".INF", "-.inf", "-.Inf", "-.INF", ".nan", ".NaN", ".NAN"]

/-- No such word begins with a digit. -/
theorem ne_of_digit (hs : s.toList = c :: cs) (hc : c.isDigit = true) :
    ∀ word ∈ plainWords, s ≠ word := by
  rintro word hword rfl
  have hall : (plainWords.all fun word => word.toList.head?.all fun c => !c.isDigit) = true := by
    decide
  have hhead := List.all_eq_true.mp hall s hword
  simp [hs, hc] at hhead

theorem isNullWord_of_digit (hs : s.toList = c :: cs) (hc : c.isDigit = true) :
    isNullWord s = false := by
  have hne := ne_of_digit hs hc
  simp only [plainWords, List.forall_mem_cons] at hne
  simp [isNullWord, hne]

theorem unsigned_of_digit (hc : c.isDigit = true) : unsigned (c :: cs) = c :: cs := by
  unfold unsigned
  split <;> simp_all

def withoutPlus : List Char → List Char
  | '+' :: rest => rest
  | cs => cs

theorem withoutPlus_of_digit (hc : c.isDigit = true) : withoutPlus (c :: cs) = c :: cs := by
  unfold withoutPlus
  split
  · next hplus =>
    obtain ⟨rfl, -⟩ := List.cons.inj hplus
    contradiction
  · rfl

theorem natOfPlain?_of_digit (hs : s.toList = c :: cs) (hc : c.isDigit = true) (bound : Nat) :
    natOfPlain? bound s =
      match (natMarked? s.toList).filter (· < bound) with
      | some n => some n
      | none =>
        if isZeroLed s.toList then none else (natOfDigits? s.toList).filter (· < bound) := by
  have hplus : withoutPlus s.toList = s.toList := by rw [hs, withoutPlus_of_digit hc]
  have hread : natOfPlain? bound s =
      match (natMarked? (withoutPlus s.toList)).filter (· < bound) with
      | some n => some n
      | none => if isZeroLed s.toList then none
        else (natOfDigits? (withoutPlus s.toList)).filter (· < bound) := rfl
  rw [hread, hplus]

/-- What begins with a digit is no word and has no minus. -/
theorem ofText_of_digit (hs : s.toList = c :: cs) (hc : c.isDigit = true) :
    PlainValue.ofText s = (natOfPlain? (Nat.pow 2 128) s).elim
      (if isZeroLed s.toList then .text else (floatOfPlain? s).elim .text .float)
      fun n => .int n := by
  have hne := ne_of_digit hs hc
  simp only [plainWords, List.forall_mem_cons] at hne
  have hempty : s.isEmpty = false := by simpa using hne.1
  have hbool : boolOfWord? s = none := by simp [boolOfWord?, hne]
  have hnegative : negativeOfPlain? 128 s = none := by
    unfold negativeOfPlain?
    split
    · next hminus =>
      obtain ⟨rfl, -⟩ := List.cons.inj (hs.symm.trans hminus)
      contradiction
    · rfl
  unfold PlainValue.ofText
  simp only [hempty, isNullWord_of_digit hs hc, hbool, hnegative, Bool.or_self,
    Bool.false_eq_true, if_false]
  generalize natOfPlain? _ s = n?
  cases n? with
  | some n => rfl
  | none => cases floatOfPlain? s <;> rfl

end Reading

section Whole

theorem isZeroLed_toDigits (n : Nat) : isZeroLed (Nat.toDigits 10 n) = false := by
  by_cases hn : n = 0
  · subst hn
    rfl
  · obtain ⟨c, cs, hdigits, hc⟩ := toDigits_eq_cons hn
    have hdigit := allDigits_toDigits n c (hdigits ▸ List.mem_cons_self)
    rw [hdigits, isZeroLed, unsigned_of_digit hdigit]
    split <;> simp_all

theorem natMarked?_toDigits (n : Nat) : natMarked? (Nat.toDigits 10 n) = none := by
  have hall := allDigits_toDigits n
  unfold natMarked?
  split
  case h_4 => rfl
  all_goals
    next heq =>
      have hmark := hall _ (heq ▸ List.mem_cons_of_mem _ List.mem_cons_self)
      contradiction

/-- The digits of a whole number are read as it. -/
theorem natOfPlain?_toDigits (n bound : Nat) :
    natOfPlain? bound (String.ofList (Nat.toDigits 10 n)) = if n < bound then some n else none := by
  obtain ⟨c, cs, hdigits, hc⟩ := exists_toDigits_eq_cons n
  have hs : (String.ofList (Nat.toDigits 10 n)).toList = Nat.toDigits 10 n := String.toList_ofList
  rw [natOfPlain?_of_digit (hs.trans hdigits) hc, hs, natMarked?_toDigits, isZeroLed_toDigits,
    natOfDigits?_toDigits]
  by_cases hn : n < bound <;> simp [Option.filter, hn]

theorem ofText_toDigits (hn : n < UInt64.size) :
    PlainValue.ofText (String.ofList (Nat.toDigits 10 n)) = .int n := by
  obtain ⟨c, cs, hdigits, hc⟩ := exists_toDigits_eq_cons n
  have hlt : n < Nat.pow 2 128 := Nat.lt_trans hn (by decide)
  rw [ofText_of_digit (by rw [String.toList_ofList]; exact hdigits) hc, natOfPlain?_toDigits,
    if_pos hlt, Option.elim_some]

end Whole

section Floating

variable {num : Numeral}

theorem exists_kept_eq_cons (num : Numeral) :
    ∃ c cs, num.kept = c :: cs ∧ c.isDigit = true := by
  obtain ⟨c, cs, hwhole⟩ := List.exists_cons_of_ne_nil num.whole_ne_nil
  refine ⟨c, cs ++ pointText num.fraction ++ exponentKept num.exponent, ?_,
    num.whole_digits c (hwhole ▸ List.mem_cons_self)⟩
  rw [Numeral.kept, hwhole, List.cons_append, List.cons_append]

/-- Digits, a point, the mark of an exponent, or a minus. -/
def isNumeralChar (c : Char) : Bool := c.isDigit || c = '.' || c = 'e' || c = '-'

theorem isNumeralChar_kept (num : Numeral) : ∀ c ∈ num.kept, isNumeralChar c = true := by
  have hdigits {cs : List Char} (h : AllDigits cs) : ∀ c ∈ cs, isNumeralChar c = true :=
    fun c hc => by simp [isNumeralChar, h c hc]
  have hpoint : ∀ c ∈ pointText num.fraction, isNumeralChar c = true := by
    have hfraction := hdigits num.fraction_digits
    cases hf : num.fraction with
    | nil => simp [pointText]
    | cons c cs =>
      rw [hf] at hfraction
      exact List.forall_mem_cons.mpr ⟨by decide, hfraction⟩
  have hexponent : ∀ c ∈ exponentKept num.exponent, isNumeralChar c = true := by
    cases num.exponent with
    | none => simp [exponentKept]
    | some e =>
      have hall := hdigits (allDigits_toDigits e.natAbs)
      refine List.forall_mem_cons.mpr ⟨by decide, List.forall_mem_append.mpr ⟨?_, hall⟩⟩
      split
      · simp
      · simp [isNumeralChar]
  exact List.forall_mem_append.mpr
    ⟨List.forall_mem_append.mpr ⟨hdigits num.whole_digits, hpoint⟩, hexponent⟩

/-- A point or the mark of an exponent is no digit. -/
theorem not_allDigits_kept (h : num.IsFloating) : ¬AllDigits num.kept := by
  intro hall
  rcases h with h | h
  · obtain ⟨c, cs, hf⟩ := List.exists_cons_of_ne_nil h
    have hpoint := hall '.' (by simp [Numeral.kept, hf, pointText])
    contradiction
  · obtain ⟨e, he⟩ := Option.ne_none_iff_exists'.mp h
    have hmark := hall 'e' (by simp [Numeral.kept, he, exponentKept])
    contradiction

theorem natMarked?_kept (num : Numeral) : natMarked? num.kept = none := by
  have hall := isNumeralChar_kept num
  unfold natMarked?
  split
  case h_4 => rfl
  all_goals
    next heq =>
      have hmark := hall _ (heq ▸ List.mem_cons_of_mem _ List.mem_cons_self)
      contradiction

theorem isZeroLed_kept (h : num.IsFloating) : isZeroLed num.kept = false := by
  obtain ⟨c, cs, hkept, hc⟩ := exists_kept_eq_cons num
  have hnot := not_allDigits_kept h
  rw [hkept] at hnot ⊢
  rw [isZeroLed, unsigned_of_digit hc]
  split
  · next d rest heq =>
    rw [heq] at hnot
    rw [← Bool.not_eq_true, List.all_eq_true]
    exact fun hall => hnot (List.forall_mem_cons.mpr ⟨by decide, hall⟩)
  · rfl

theorem toLower_of_isDigit (hc : c.isDigit = true) : c.toLower = c := by
  unfold Char.toLower
  simp only [Char.isDigit, Bool.and_eq_true, decide_eq_true_eq] at hc
  have hbelow : ¬ 'A'.val ≤ c.val := fun hle => absurd (UInt32.le_trans hle hc.2) (by decide)
  rw [dif_neg fun hletter => hbelow hletter.1]

theorem ofText?_kept (num : Numeral) : Binary64.ofText? num.kept = some (num.value false) := by
  obtain ⟨c, cs, hkept, hc⟩ := exists_kept_eq_cons num
  have hread : Binary64.ofNumeral? false num.kept = some (num.value false) :=
    Binary64.ofNumeral?_kept num false
  have hword {word : String} (hword : word.toList.head?.all fun d => !d.isDigit) :
      String.ofList ((c :: cs).map Char.toLower) ≠ word := by
    rintro rfl
    simp [toLower_of_isDigit hc, hc] at hword
  have hunsigned : Binary64.ofUnsigned? false (c :: cs) = some (num.value false) := by
    unfold Binary64.ofUnsigned?
    rw [← hkept, hread]
    split
    · next heq => exact absurd heq (hkept ▸ hword (by decide))
    · next heq => exact absurd heq (hkept ▸ hword (by decide))
    · next heq => exact absurd heq (hkept ▸ hword (by decide))
    · rfl
  rw [hkept]
  unfold Binary64.ofText?
  split
  · next heq =>
    obtain ⟨rfl, -⟩ := List.cons.inj heq
    contradiction
  · next heq =>
    obtain ⟨rfl, -⟩ := List.cons.inj heq
    contradiction
  · exact hunsigned

theorem floatOfPlain?_kept (num : Numeral) (hfinite : (num.value false).isFinite = true) :
    floatOfPlain? (String.ofList num.kept) = some (num.value false) := by
  obtain ⟨c, cs, hkept, hc⟩ := exists_kept_eq_cons num
  have hs : (String.ofList num.kept).toList = num.kept := String.toList_ofList
  have hne := ne_of_digit (hs.trans hkept) hc
  simp only [plainWords, List.forall_mem_cons] at hne
  have hplus : withoutPlus num.kept = num.kept := by rw [hkept, withoutPlus_of_digit hc]
  have hsigned : num.kept.head? ≠ some '+' ∧ num.kept.head? ≠ some '-' := by
    rw [hkept]
    refine ⟨?_, ?_⟩ <;>
    · rintro heq
      obtain rfl := Option.some.inj heq
      contradiction
  have hread : floatOfPlain? (String.ofList num.kept) =
      let plus := withoutPlus (String.ofList num.kept).toList
      let word := String.ofList plus
      if (String.ofList num.kept).startsWith "+" &&
          (plus.head? = some '+' || plus.head? = some '-') then none
      else if word = ".inf" || word = ".Inf" || word = ".INF" then some (.infinite false)
      else if String.ofList num.kept = "-.inf" || String.ofList num.kept = "-.Inf" ||
        String.ofList num.kept = "-.INF" then some (.infinite true)
      else if String.ofList num.kept = ".nan" || String.ofList num.kept = ".NaN" ||
        String.ofList num.kept = ".NAN" then some .nan
      else (Binary64.ofText? plus).filter Binary64.isFinite := rfl
  rw [hread, hs, hplus]
  simp [hsigned, hne, ofText?_kept, Option.filter, hfinite]

/-- A floating number is read from its text, and the text stands for nothing else. -/
theorem ofText_kept (h : num.IsFloating) (hfinite : (num.value false).isFinite = true) :
    PlainValue.ofText (String.ofList num.kept) = .float (num.value false) := by
  obtain ⟨c, cs, hkept, hc⟩ := exists_kept_eq_cons num
  have hs : (String.ofList num.kept).toList = num.kept := String.toList_ofList
  have hdigits : natOfDigits? num.kept = none := by
    unfold natOfDigits?
    have hall : num.kept.all Char.isDigit = false := by
      rw [← Bool.not_eq_true, List.all_eq_true]
      exact not_allDigits_kept h
    simp [hall]
  rw [ofText_of_digit (hs.trans hkept) hc, natOfPlain?_of_digit (hs.trans hkept) hc, hs,
    natMarked?_kept, isZeroLed_kept h, hdigits, floatOfPlain?_kept num hfinite]
  simp

end Floating

section Safe

theorem isNumeralChar_cases (hc : isNumeralChar c = true) :
    isPrintable c = true ∧ isBreak c = false ∧ isSpace c = false ∧ c ≠ ':' ∧ c ≠ '#' := by
  simp only [isNumeralChar, Bool.or_eq_true, decide_eq_true_eq] at hc
  rcases hc with ((hc | rfl) | rfl) | rfl
  · have hne {d : Char} (hd : d.isDigit = false) : c ≠ d := by
      rintro rfl
      exact Bool.false_ne_true (hd.symm.trans hc)
    simp only [Char.isDigit, Bool.and_eq_true, decide_eq_true_eq] at hc
    have hbounds : 48 ≤ c.toNat ∧ c.toNat ≤ 57 := hc
    refine ⟨?_, ?_, ?_, hne (by decide), hne (by decide)⟩
    · simp only [isPrintable, Bool.or_eq_true, Bool.and_eq_true, decide_eq_true_eq]
      omega
    · simp [isBreak, hne]
    · simp [isSpace, hne]
  all_goals decide

theorem hasMark_of_numeral (afterBlank : Bool) (h : ∀ c ∈ cs, isNumeralChar c = true) :
    hasMark afterBlank cs = false := by
  induction cs generalizing afterBlank with
  | nil => rfl
  | cons c cs ih =>
    rw [List.forall_mem_cons] at h
    obtain ⟨-, -, -, hcolon, hhash⟩ := isNumeralChar_cases h.1
    simp [hasMark, hcolon, hhash, ih _ h.2]

/-- What is made of the characters of numerals is safe if a digit is first. -/
theorem isPlainSafe_of_numeral (hc : c.isDigit = true)
    (h : ∀ d ∈ c :: cs, isNumeralChar d = true) : isPlainSafe (c :: cs) = true := by
  have hmarker : startsLikeMarker (c :: cs) = false := by
    unfold startsLikeMarker
    split <;> simp_all
  have hmark : startsWithMark (c :: cs) = false := by
    have hmarks : (c = '?' || c = ':' || c = '-') = false := by
      rw [← Bool.not_eq_true]
      simp only [Bool.or_eq_true, decide_eq_true_eq]
      rintro ((rfl | rfl) | rfl) <;> contradiction
    rw [startsWithMark_cons, contains_marks_eq_false (by decide) hc, hmarks]
    rfl
  have hcases (d : Char) (hd : d ∈ c :: cs) := isNumeralChar_cases (h d hd)
  simp only [isPlainSafe, hmarker, hmark, hasMark_of_numeral false h, Bool.not_false,
    Bool.true_and, Bool.and_eq_true, List.all_eq_true, Option.all_eq_true, Bool.not_eq_true']
  refine ⟨⟨fun d hd => ?_, fun d hd => ?_⟩, fun d hd => ?_⟩
  · exact (hcases d (List.mem_of_head? hd)).2.2.1
  · exact (hcases d (List.mem_of_getLast? hd)).2.2.1
  · exact ⟨(hcases d hd).1, (hcases d hd).2.1⟩

end Safe

end Yaml

end RowReplay
