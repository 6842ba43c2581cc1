import RowReplay.Json.Parser
import RowReplay.Json.Printer
import RowReplay.Proofs.Number.Decimals

/-!
Numbers in JSON text: the parts of a numeral, how it is read, and that the text of a number is a
numeral that is read as that number.
-/
namespace RowReplay

variable {ds rest : List Char} {n : Nat}

/-- Digits and nothing else. -/
def AllDigits (cs : List Char) : Prop := ∀ c ∈ cs, c.isDigit = true

theorem allDigits_toDigits (n : Nat) : AllDigits (Nat.toDigits 10 n) := fun _ =>
  Nat.isDigit_of_mem_toDigits (by decide) (by decide)

theorem allDigits_zeros (k : Nat) : AllDigits (List.replicate k '0') := by
  intro c hc
  rw [List.eq_of_mem_replicate hc]
  decide

theorem AllDigits.append {cs : List Char} (h : AllDigits ds) (hc : AllDigits cs) :
    AllDigits (ds ++ cs) := by
  intro c hmem
  rcases List.mem_append.mp hmem with hmem | hmem
  · exact h c hmem
  · exact hc c hmem

theorem AllDigits.take (h : AllDigits ds) (k : Nat) : AllDigits (ds.take k) := fun c hc =>
  h c (List.mem_of_mem_take hc)

theorem AllDigits.drop (h : AllDigits ds) (k : Nat) : AllDigits (ds.drop k) := fun c hc =>
  h c (List.mem_of_mem_drop hc)

/-- The digits of a text end where another character stands. -/
theorem spanDigits_append (h : AllDigits ds) (hr : ∀ c ∈ rest.head?, c.isDigit = false) :
    spanDigits (ds ++ rest) = (ds, rest) := by
  unfold spanDigits
  rw [List.takeWhile_append_of_pos h, List.dropWhile_append_of_pos h]
  cases rest with
  | nil => simp
  | cons c rest =>
    have hc := hr c rfl
    simp [hc]

@[simp] theorem natOfDigits?_toDigits (n : Nat) : natOfDigits? (Nat.toDigits 10 n) = some n := by
  have hall : (Nat.toDigits 10 n).all Char.isDigit = true :=
    List.all_eq_true.mpr (allDigits_toDigits n)
  simp [natOfDigits?, hall, Nat.toDigits_ne_nil]

/-- The digits of a positive number do not begin with a zero. -/
theorem toDigits_eq_cons (hn : n ≠ 0) :
    ∃ c cs, Nat.toDigits 10 n = c :: cs ∧ c ≠ '0' := by
  induction n using Nat.strongRecOn with
  | ind n ih =>
    rcases Nat.lt_or_ge n 10 with hlt | hge
    · have hdigit : ∀ d < 10, d ≠ 0 → d.digitChar ≠ '0' := by decide
      exact ⟨n.digitChar, [], Nat.toDigits_of_lt_base hlt, hdigit n hlt hn⟩
    · obtain ⟨c, cs, hdigits, hc⟩ := ih (n / 10) (by omega) (by omega)
      refine ⟨c, cs ++ [(n % 10).digitChar], ?_, hc⟩
      rw [Nat.toDigits_of_base_le (by decide) hge, hdigits, List.cons_append]

/-- The parts of a numeral: digits that do not begin with a zero unless they are one, digits after
the point if there is one, and the exponent if there is one. -/
structure Numeral where
  whole : List Char
  fraction : List Char
  exponent : Option Int
  whole_digits : AllDigits whole
  fraction_digits : AllDigits fraction
  proper : whole = ['0'] ∨ ∃ c cs, whole = c :: cs ∧ c ≠ '0'

namespace Numeral

variable {num : Numeral}

def pointText : List Char → List Char
  | [] => []
  | digits => '.' :: digits

/-- An exponent with its sign. -/
def exponentText : Option Int → List Char
  | none => []
  | some e => 'e' :: (if 0 ≤ e then '+' else '-') :: Nat.toDigits 10 e.natAbs

/-- What is kept of an exponent: a plus is passed over. -/
def exponentKept : Option Int → List Char
  | none => []
  | some e => 'e' :: ((if 0 ≤ e then [] else ['-']) ++ Nat.toDigits 10 e.natAbs)

def text (num : Numeral) : List Char :=
  num.whole ++ (pointText num.fraction ++ exponentText num.exponent)

/-- The floating-point number that a numeral is read as. -/
def value (num : Numeral) (negative : Bool) : Binary64 :=
  .ofDecimal negative (digitsValue (num.whole ++ num.fraction))
    (num.exponent.getD 0 - num.fraction.length)

/-- There is a point or an exponent. -/
def IsFloating (num : Numeral) : Prop := num.fraction ≠ [] ∨ num.exponent ≠ none

/-- What does not go on with a numeral. -/
def Ends (rest : List Char) : Prop :=
  ∀ c ∈ rest.head?, c.isDigit = false ∧ c ≠ '.' ∧ c ≠ 'e' ∧ c ≠ 'E'

theorem ends_nil : Ends [] := by simp [Ends]

/-- Digits do not go on where a point or the end stands. -/
theorem head_pointText (fraction : List Char) {cs : List Char}
    (h : ∀ c ∈ cs.head?, c.isDigit = false) :
    ∀ c ∈ (pointText fraction ++ cs).head?, c.isDigit = false := by
  cases fraction with
  | nil => exact h
  | cons =>
    intro c hc
    obtain rfl := Option.some.inj hc
    decide

/-- Neither digits nor a point go on where an exponent or the end stands. -/
theorem head_exponentText (o : Option Int) (h : Ends rest) :
    ∀ c ∈ (exponentText o ++ rest).head?, c.isDigit = false ∧ c ≠ '.' := by
  cases o with
  | none => exact fun c hc => ⟨(h c hc).1, (h c hc).2.1⟩
  | some =>
    intro c hc
    obtain rfl := Option.some.inj hc
    decide

theorem head_exponentKept (o : Option Int) : ∀ c ∈ (exponentKept o).head?, c.isDigit = false := by
  cases o with
  | none => simp [exponentKept]
  | some =>
    intro c hc
    obtain rfl := Option.some.inj hc
    decide

theorem whole_ne_nil (num : Numeral) : num.whole ≠ [] := by
  obtain h | ⟨c, cs, h, -⟩ := num.proper <;> simp [h]

end Numeral

open Numeral

theorem exists_toDigits_eq_cons (n : Nat) :
    ∃ c cs, Nat.toDigits 10 n = c :: cs ∧ c.isDigit = true := by
  obtain ⟨c, cs, h⟩ := List.exists_cons_of_ne_nil (Nat.toDigits_ne_nil (n := n) (b := 10))
  exact ⟨c, cs, h, allDigits_toDigits n c (h ▸ List.mem_cons_self)⟩

theorem Binary64.exponentPart?_kept (o : Option Int) :
    exponentPart? (exponentKept o) = some (o.getD 0) := by
  cases o with
  | none => rfl
  | some e =>
    have hread := natOfDigits?_toDigits e.natAbs
    by_cases he : 0 ≤ e
    · obtain ⟨c, cs, hcs, hc⟩ := exists_toDigits_eq_cons e.natAbs
      have hplus : c ≠ '+' := by rintro rfl; contradiction
      have hminus : c ≠ '-' := by rintro rfl; contradiction
      rw [hcs] at hread
      simp [exponentKept, exponentPart?, he, hcs, hplus, hminus, hread]
    · simp [exponentKept, exponentPart?, he, hread, abs_of_neg (not_le.mp he)]

theorem Binary64.ofNumeral?_kept (num : Numeral) (negative : Bool) :
    ofNumeral? negative (num.whole ++ pointText num.fraction ++ exponentKept num.exponent) =
      some (num.value negative) := by
  have hne := whole_ne_nil num
  have hspan := spanDigits_append num.whole_digits
    (head_pointText num.fraction (head_exponentKept num.exponent))
  unfold ofNumeral?
  rw [List.append_assoc, hspan]
  dsimp only
  cases hf : num.fraction with
  | nil =>
    rw [hf] at hspan
    cases ho : num.exponent with
    | none => simp [pointText, exponentKept, hne, exponentPart?, Numeral.value, hf, ho]
    | some e =>
      have hread := exponentPart?_kept (some e)
      rw [exponentKept] at hread
      simp [pointText, exponentKept, hne, hread, Numeral.value, hf, ho]
  | cons d ds =>
    have hspan' := spanDigits_append num.fraction_digits (head_exponentKept num.exponent)
    rw [hf] at hspan'
    simp only [pointText, List.cons_append]
    rw [← List.cons_append, hspan']
    simp [exponentPart?_kept, Numeral.value, hf]

namespace Json

theorem wholePart?_whole (num : Numeral) (h : ∀ c ∈ rest.head?, c.isDigit = false) :
    wholePart? (num.whole ++ rest) = some (num.whole, rest) := by
  unfold wholePart?
  rw [spanDigits_append num.whole_digits h]
  obtain hwhole | ⟨c, cs, hwhole, hc⟩ := num.proper
  · rw [hwhole]
    rfl
  · rw [hwhole]
    split <;> simp_all

theorem exponentChars?_text (o : Option Int) (h : Ends rest) :
    exponentChars? (exponentText o ++ rest) = some (exponentKept o, rest) := by
  cases o with
  | none =>
    cases rest with
    | nil => rfl
    | cons c rest =>
      obtain ⟨-, -, he, hE⟩ := h c rfl
      simp [exponentText, exponentKept, exponentChars?, he, hE]
  | some e =>
    have hspan : spanDigits (Nat.toDigits 10 e.natAbs ++ rest) = (Nat.toDigits 10 e.natAbs, rest) :=
      spanDigits_append (allDigits_toDigits _) fun c hc => (h c hc).1
    by_cases he : 0 ≤ e
    · simp [exponentText, exponentKept, exponentChars?, he, hspan, Nat.toDigits_ne_nil]
    · simp [exponentText, exponentKept, exponentChars?, he, hspan, Nat.toDigits_ne_nil]

/-- A numeral is read whole if there is neither a point nor an exponent and it fits 64 bits; else it
is floating. -/
theorem number?_text (num : Numeral) (negative : Bool) (h : Ends rest) :
    number? negative (num.text ++ rest) =
      if num.fraction.isEmpty && num.exponent.isNone &&
        (if negative then 0 < digitsValue num.whole && digitsValue num.whole ≤ Nat.pow 2 63
          else digitsValue num.whole < UInt64.size) then
        some
          (.int (if negative then -(digitsValue num.whole : Int) else digitsValue num.whole), rest)
      else if (num.value negative).isFinite then some (.float (num.value negative), rest)
      else none := by
  have hend := head_exponentText num.exponent h
  have hwhole := wholePart?_whole num (head_pointText num.fraction fun c hc => (hend c hc).1)
  have hexponent := exponentChars?_text num.exponent h
  have hkept : (exponentKept num.exponent).isEmpty = num.exponent.isNone := by
    cases num.exponent <;> rfl
  have hread := Binary64.ofNumeral?_kept num negative
  unfold number? Numeral.text
  rw [List.append_assoc, List.append_assoc, hwhole]
  simp only [Option.bind_eq_bind, Option.bind_some]
  cases hf : num.fraction with
  | nil =>
    rw [hf, pointText] at hread
    simp only [pointText, List.nil_append]
    split
    · next hpoint => exact absurd rfl (hend '.' (by rw [hpoint]; rfl)).2
    · rw [hexponent]
      simp only [Option.bind_some, hread, hkept]
  | cons d ds =>
    have hdigits := spanDigits_append num.fraction_digits fun c hc => (hend c hc).1
    have hpoint : pointText num.fraction = '.' :: d :: ds := by rw [hf]; rfl
    rw [hpoint] at hread
    rw [hf] at hdigits
    simp only [pointText, List.cons_append] at hdigits ⊢
    rw [hdigits]
    simp only [hexponent, Option.bind_some, hread, List.isEmpty_cons, Bool.false_and]

end Json

/-- A text is a numeral with a point or an exponent that is read as the decimal. -/
def IsNumeralOf (cs : List Char) (d : Decimal) : Prop :=
  ∃ num : Numeral, cs = num.text ∧ num.IsFloating ∧
    ∀ negative, num.value negative = .ofDecimal negative d.digits d.exponent

section Layouts

variable {d : Decimal} {c : Char} {cs : List Char} {k : Nat}

/-- One digit, the others after the point, and an exponent. -/
theorem isNumeralOf_exponent (hall : AllDigits (c :: cs)) (hc : c ≠ '0')
    (hvalue : digitsValue (c :: cs) = d.digits) {e : Int} (he : e - cs.length = d.exponent) :
    IsNumeralOf (c :: (pointText cs ++ exponentText (some e))) d := by
  refine ⟨⟨[c], cs, some e, hall.take 1, hall.drop 1, .inr ⟨c, [], rfl, hc⟩⟩, rfl,
    .inr (by simp), fun negative => ?_⟩
  exact congrArg₂ (Binary64.ofDecimal negative) hvalue he

/-- All digits, zeros, and a zero after the point. -/
theorem isNumeralOf_zeros (hall : AllDigits (c :: cs)) (hc : c ≠ '0')
    (hvalue : digitsValue (c :: cs) = d.digits) (he : d.exponent = k) :
    IsNumeralOf (c :: cs ++ List.replicate k '0' ++ ['.', '0']) d := by
  refine ⟨⟨c :: cs ++ List.replicate k '0', ['0'], none, hall.append (allDigits_zeros _),
    allDigits_zeros 1, .inr ⟨c, _, rfl, hc⟩⟩, ?_, .inl (by simp), fun negative => ?_⟩
  · simp [Numeral.text, pointText, exponentText]
  · have hzeros : digitsValue (c :: cs ++ List.replicate k '0' ++ ['0']) =
        d.digits * 10 ^ (k + 1) := by
      rw [List.append_assoc, ← List.replicate_succ', digitsValue_append, hvalue,
        digitsValue_zeros, List.length_replicate, Nat.add_zero, Nat.mul_comm]
    unfold Numeral.value
    dsimp only
    rw [hzeros, Binary64.ofDecimal_mul_pow]
    congr 1
    simp [he]

/-- The point stands between the digits. -/
theorem isNumeralOf_point (hall : AllDigits (c :: cs)) (hc : c ≠ '0')
    (hvalue : digitsValue (c :: cs) = d.digits) (hk : k < cs.length)
    (he : (k : Int) - cs.length = d.exponent) :
    IsNumeralOf (c :: (cs.take k ++ '.' :: cs.drop k)) d := by
  obtain ⟨f, fs, hf⟩ := List.exists_cons_of_ne_nil (List.drop_eq_nil_iff.not.mpr hk.not_ge)
  refine ⟨⟨c :: cs.take k, cs.drop k, none, hall.take (k + 1), hall.drop (k + 1),
    .inr ⟨c, _, rfl, hc⟩⟩, ?_, .inl (by simp [hf]), fun negative => ?_⟩
  · simp [Numeral.text, pointText, exponentText, hf]
  · unfold Numeral.value
    dsimp only
    rw [List.cons_append, List.take_append_drop, hvalue, List.length_drop]
    congr 1
    simp
    omega

/-- Zeros stand between the point and the digits. -/
theorem isNumeralOf_fraction (hall : AllDigits (c :: cs))
    (hvalue : digitsValue (c :: cs) = d.digits)
    (he : -((k : Int) + (c :: cs).length) = d.exponent) :
    IsNumeralOf ('0' :: '.' :: (List.replicate k '0' ++ c :: cs)) d := by
  refine ⟨⟨['0'], List.replicate k '0' ++ (c :: cs), none, allDigits_zeros 1,
    (allDigits_zeros _).append hall, .inl rfl⟩, ?_, .inl (by simp), fun negative => ?_⟩
  · cases k <;> simp [Numeral.text, exponentText, pointText, List.replicate_succ]
  · have hzeros : digitsValue (['0'] ++ (List.replicate k '0' ++ c :: cs)) = d.digits := by
      rw [← List.append_assoc, List.singleton_append, ← List.replicate_succ, digitsValue_append,
        digitsValue_zeros, hvalue, Nat.mul_zero, Nat.zero_add]
    unfold Numeral.value
    dsimp only
    rw [hzeros]
    congr 1
    rw [← he]
    simp

/-- The text of a positive decimal is a numeral with a point or an exponent that is read as it. -/
theorem isNumeralOf_decimalText (hd : d.digits ≠ 0) :
    IsNumeralOf (NumeralLayout.json.decimalText d).toList d := by
  obtain ⟨c, cs, hdigits, hc⟩ := toDigits_eq_cons hd
  have hall : AllDigits (c :: cs) := hdigits ▸ allDigits_toDigits d.digits
  have hvalue : digitsValue (c :: cs) = d.digits := hdigits ▸ digitsValue_toDigits d.digits
  unfold NumeralLayout.decimalText
  rw [hdigits]
  dsimp only
  generalize hpoint : ((c :: cs).length : Int) + d.exponent = point
  rw [List.length_cons] at hpoint
  split
  · obtain ⟨e, rfl⟩ : ∃ e, point = e + 1 := ⟨point - 1, by omega⟩
    have htext := isNumeralOf_exponent hall hc hvalue (e := e) (by omega)
    cases cs <;> by_cases he : 0 ≤ e <;>
      simpa [pointText, exponentText, he, NumeralLayout.json] using htext
  split
  · next he =>
    obtain ⟨k, hk⟩ := Int.eq_ofNat_of_zero_le he
    simpa [hk, NumeralLayout.json] using isNumeralOf_zeros hall hc hvalue hk
  split
  · next he hpos =>
    obtain ⟨k, rfl⟩ : ∃ k : Nat, point = (k + 1 : Nat) := ⟨(point - 1).toNat, by omega⟩
    simpa using isNumeralOf_point hall hc hvalue (k := k) (by omega) (by omega)
  · next he hpos =>
    obtain ⟨k, rfl⟩ : ∃ k : Nat, point = -(k : Int) := ⟨(-point).toNat, by omega⟩
    have htext := isNumeralOf_fraction hall hvalue (k := k) (by rw [List.length_cons]; omega)
    simpa using htext

end Layouts

namespace Json

/-- A minus in front of what is negative. -/
def signText (negative : Bool) : List Char := if negative then ['-'] else []

/-- The text of a finite number is a numeral with a point or an exponent that is read as it. -/
theorem exists_floatText_eq (negative : Bool) (m : Magnitude) :
    ∃ num : Numeral, (floatText (.finite negative m)).toList = signText negative ++ num.text ∧
      num.IsFloating ∧ num.value negative = .finite negative m := by
  by_cases hm : m.units = 0
  · have hzero : m = .zero := Magnitude.units_injective hm
    refine ⟨⟨['0'], ['0'], none, allDigits_zeros 1, allDigits_zeros 1, .inl rfl⟩, ?_,
      .inl (by simp), hzero ▸ rfl⟩
    cases negative <;>
      simp [floatText, NumeralLayout.text, hm, NumeralLayout.json, signText, Numeral.text,
        pointText, exponentText]
  · obtain ⟨hdigits, hwrites⟩ := Decimal.writes_shortest false (Nat.pos_of_ne_zero hm)
    obtain ⟨num, htext, hfloating, hvalue⟩ := isNumeralOf_decimalText hdigits
    refine ⟨num, ?_, hfloating, (hvalue negative).trans (Binary64.ofDecimal_of_finite _ hwrites)⟩
    have htiesUp : NumeralLayout.json.tiesUp = false := rfl
    cases negative <;> simp [floatText, NumeralLayout.text, hm, signText, htiesUp, htext]

/-- A whole number as a numeral. -/
def wholeNumeral (n : Nat) : Numeral where
  whole := Nat.toDigits 10 n
  fraction := []
  exponent := none
  whole_digits := allDigits_toDigits n
  fraction_digits := by simp [AllDigits]
  proper := by
    by_cases hn : n = 0
    · exact .inl (hn ▸ rfl)
    · exact .inr (toDigits_eq_cons hn)

theorem number?_wholeNumeral (n : Nat) (negative : Bool) (h : Ends rest) :
    number? negative ((wholeNumeral n).text ++ rest) =
      if (if negative then 0 < n && n ≤ Nat.pow 2 63 else n < UInt64.size) then
        some (.int (if negative then -(n : Int) else n), rest)
      else if (Binary64.ofDecimal negative n 0).isFinite then
        some (.float (.ofDecimal negative n 0), rest)
      else none := by
  rw [number?_text _ _ h]
  simp [wholeNumeral, Numeral.value]

theorem toString_int_eq (i : Int) :
    (toString i).toList = signText (decide (i < 0)) ++ (wholeNumeral i.natAbs).text := by
  rw [Int.toString_eq_repr, Int.repr_eq_if]
  by_cases hi : 0 ≤ i
  · have habs : i.toNat = i.natAbs := by omega
    simp [hi, habs, not_lt.mpr hi, signText, wholeNumeral, Numeral.text, pointText, exponentText]
  · have habs : (-i).toNat = i.natAbs := by omega
    simp [hi, habs, not_le.mp hi, signText, wholeNumeral, Numeral.text, pointText, exponentText]

end Json

end RowReplay
