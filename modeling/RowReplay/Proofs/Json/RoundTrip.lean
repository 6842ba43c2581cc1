import RowReplay.Proofs.Json.Numerals

/-!
Compact JSON text is read back as the value that was written, for every value that can be written.
-/
namespace RowReplay.Json

open Numeral

variable {fuel : Nat} {rest cs seen : List Char} {c : Char}

section Strings

theorem hexDigit?_digitChar : ∀ d < 16, hexDigit? d.digitChar = some d := by decide

theorem hexPadded_control : ∀ n < 32,
    (Text.hexPadded 4 n).toList = ['0', '0', (n / 16).digitChar, (n % 16).digitChar] := by decide

/-- A control character is read back from its number. -/
theorem numberedEscape?_hexPadded (hc : c.toNat < 32) (rest : List Char) :
    numberedEscape? ((Text.hexPadded 4 c.toNat).toList ++ rest) = some (c, rest) := by
  have hzero : hexDigit? '0' = some 0 := by decide
  have hhigh := hexDigit?_digitChar (c.toNat / 16) (by omega)
  have hlow := hexDigit?_digitChar (c.toNat % 16) (by omega)
  have hdiv : c.toNat / 16 * 16 + c.toNat % 16 = c.toNat := Nat.div_add_mod' _ _
  rw [hexPadded_control _ hc]
  simp only [numberedEscape?, hexUnit?, List.cons_append, List.nil_append, hzero, hhigh, hlow,
    Option.bind_eq_bind, Option.bind_some, Nat.zero_mul, Nat.zero_add, hdiv]
  rw [if_neg (by omega), if_neg (by omega), Char.ofNat_toNat]

/-- An escaped character is read back. -/
theorem stringBody?_escapedChar (c : Char) (fuel : Nat) (rest seen : List Char) :
    stringBody? (fuel + 1) (escapedChar c ++ rest) seen = stringBody? fuel rest (c :: seen) := by
  unfold escapedChar
  split
  · next h => subst h; rfl
  split
  · next h => subst h; rfl
  split
  · next h =>
    obtain rfl : c = '\x08' := Char.toNat_inj.mp h
    rfl
  split
  · next h =>
    obtain rfl : c = '\x0c' := Char.toNat_inj.mp h
    rfl
  split
  · next h => subst h; rfl
  split
  · next h => subst h; rfl
  split
  · next h => subst h; rfl
  split
  · next h =>
    simp only [List.cons_append, stringBody?]
    rw [numberedEscape?_hexPadded h]
  · next hquote hslash _ _ _ _ _ hcontrol =>
    simp only [List.cons_append, List.nil_append]
    rw [stringBody?.eq_def]
    split <;> simp_all

/-- The characters of a string are read back up to the closing quote. -/
theorem stringBody?_escaped (h : cs.length < fuel) (rest seen : List Char) :
    stringBody? fuel (cs.flatMap escapedChar ++ '"' :: rest) seen =
      some (String.ofList (seen.reverse ++ cs), rest) := by
  obtain ⟨fuel, rfl⟩ := Nat.exists_eq_succ_of_ne_zero (Nat.ne_zero_of_lt h)
  induction cs generalizing fuel seen with
  | nil => simp [stringBody?]
  | cons c cs ih =>
    rw [List.length_cons] at h
    obtain ⟨fuel, rfl⟩ := Nat.exists_eq_succ_of_ne_zero (show fuel ≠ 0 by omega)
    rw [List.flatMap_cons, List.append_assoc, stringBody?_escapedChar,
      ih (c :: seen) fuel (by omega)]
    simp

theorem length_le_length_escaped (cs : List Char) :
    cs.length ≤ (cs.flatMap escapedChar).length := by
  induction cs with
  | nil => simp
  | cons c cs ih =>
    have hc : 0 < (escapedChar c).length := by
      unfold escapedChar
      repeat' split
      all_goals simp
    rw [List.flatMap_cons, List.length_append, List.length_cons]
    omega

theorem toList_stringText (s : String) :
    (stringText s).toList = '"' :: (s.toList.flatMap escapedChar ++ ['"']) := by
  simp [stringText]

end Strings

section Values

theorem skipBlanks_cons (hc : isBlank c = false) (cs : List Char) :
    skipBlanks (c :: cs) = c :: cs := List.dropWhile_cons_of_neg (by simp [hc])

theorem isBlank_of_isDigit (hc : c.isDigit = true) : isBlank c = false := by
  by_contra hblank
  simp only [isBlank, Bool.or_eq_true, decide_eq_true_eq, Bool.not_eq_false] at hblank
  rcases hblank with ((rfl | rfl) | rfl) | rfl <;> contradiction

/-- A digit begins a number. -/
theorem value?_digit (hc : c.isDigit = true) (fuel : Nat) (cs : List Char) :
    value? (fuel + 1) (c :: cs) = number? false (c :: cs) := by
  rw [value?, skipBlanks_cons (isBlank_of_isDigit hc)]
  split <;> first | rfl | (next h => obtain ⟨rfl, -⟩ := List.cons.inj h; contradiction)

theorem value?_minus (fuel : Nat) (cs : List Char) :
    value? (fuel + 1) ('-' :: cs) = number? true cs := by
  rw [value?, skipBlanks_cons (by decide)]
  rfl

theorem value?_sign (num : Numeral) (negative : Bool) (fuel : Nat) (rest : List Char) :
    value? (fuel + 1) (signText negative ++ (num.text ++ rest)) =
      number? negative (num.text ++ rest) := by
  cases negative with
  | true => exact value?_minus fuel _
  | false =>
    obtain ⟨c, cs, hwhole⟩ := List.exists_cons_of_ne_nil (whole_ne_nil num)
    have hc : c.isDigit = true := num.whole_digits c (hwhole ▸ List.mem_cons_self)
    unfold Numeral.text
    rw [hwhole]
    exact value?_digit hc fuel _

/-- A whole number of 64 bits, signed or not. -/
def IsWhole64 (i : Int) : Prop := Int64.minValue.toInt ≤ i ∧ i < UInt64.size

/-- A number fits 64 bits with its sign. -/
theorem fits_iff_isWhole64 (i : Int) :
    (if decide (i < 0) then 0 < i.natAbs && i.natAbs ≤ Nat.pow 2 63
      else decide (i.natAbs < UInt64.size)) = true ↔ IsWhole64 i := by
  have hmin : Int64.minValue.toInt = -(2 ^ 63 : Nat) := by decide
  have hsize : UInt64.size = 2 ^ 64 := rfl
  unfold IsWhole64
  by_cases hi : i < 0
  · simp only [hi, decide_true, if_true, Bool.and_eq_true, decide_eq_true_eq, Nat.pow_eq]
    omega
  · simp only [hi, decide_false, Bool.false_eq_true, if_false, decide_eq_true_eq]
    omega

theorem signed_natAbs (i : Int) : (if decide (i < 0) then -(i.natAbs : Int) else i.natAbs) = i := by
  by_cases hi : i < 0
  · simp only [hi, decide_true, if_true]
    omega
  · simp only [hi, decide_false, Bool.false_eq_true, if_false]
    omega

theorem value?_int {i : Int} (hi : IsWhole64 i) (fuel : Nat) (hr : Ends rest) :
    value? (fuel + 1) ((toString i).toList ++ rest) = some (.int i, rest) := by
  rw [toString_int_eq, List.append_assoc, value?_sign, number?_wholeNumeral _ _ hr,
    if_pos ((fits_iff_isWhole64 i).mpr hi), signed_natAbs]

theorem value?_float {x : Binary64} (hx : x.isFinite = true) (fuel : Nat) (hr : Ends rest) :
    value? (fuel + 1) ((floatText x).toList ++ rest) = some (.float x, rest) := by
  cases x with
  | nan => contradiction
  | infinite => contradiction
  | finite negative m =>
    obtain ⟨num, htext, hfloating, hvalue⟩ := exists_floatText_eq negative m
    rw [htext, List.append_assoc, value?_sign, number?_text _ _ hr, hvalue]
    have hnot : (num.fraction.isEmpty && num.exponent.isNone) = false := by
      rcases hfloating with h | h
      · simp [h]
      · rw [Option.isNone_eq_false_iff.mpr (Option.isSome_iff_ne_none.mpr h), Bool.and_false]
    rw [hnot, Bool.false_and]
    rfl

/-- The values that can be written: whole numbers have 64 bits and floating ones are finite. -/
inductive Writable : Json → Prop
  | null : Writable .null
  | bool (b : Bool) : Writable (.bool b)
  | int {i : Int} (h : IsWhole64 i) : Writable (.int i)
  | float {x : Binary64} (h : x.isFinite = true) : Writable (.float x)
  | str (s : String) : Writable (.str s)
  | arr {items : List Json} (h : ∀ j ∈ items, Writable j) : Writable (.arr items)
  | obj {members : List (String × Json)} (h : ∀ m ∈ members, Writable m.2) : Writable (.obj members)

/-- No value begins with a closing bracket. -/
theorem items?_bracket {more : List Char} (h : skipBlanks cs = ']' :: more) (fuel : Nat)
    (seen : List Json) : items? fuel cs seen = none := by
  have hvalue (fuel : Nat) : value? fuel cs = none := by
    cases fuel with
    | zero => rw [value?]
    | succ fuel =>
      rw [value?, h]
      rfl
  cases fuel with
  | zero => rw [items?]
  | succ fuel => rw [items?, hvalue]

/-- No member begins with a closing brace. -/
theorem members?_brace {more : List Char} (h : skipBlanks cs = '\x7d' :: more) (fuel : Nat)
    (seen : List (String × Json)) : members? fuel cs seen = none := by
  cases fuel with
  | zero => rw [members?]
  | succ fuel =>
    rw [members?, h]
    rfl

theorem ends_comma (cs : List Char) : Ends (',' :: cs) := by simp [Ends]

theorem ends_bracket (cs : List Char) : Ends (']' :: cs) := by simp [Ends]

theorem ends_brace (cs : List Char) : Ends ('\x7d' :: cs) := by simp [Ends]

theorem value?_str (s : String) (h : s.toList.length < fuel) (rest : List Char) :
    value? (fuel + 1) ((stringText s).toList ++ rest) = some (.str s, rest) := by
  have hbody := stringBody?_escaped h rest []
  rw [toList_stringText, List.cons_append, List.append_assoc, List.singleton_append, value?,
    skipBlanks_cons (by decide)]
  simp only [hbody]
  simp

theorem toList_compactItems_cons (item next : Json) (items : List Json) :
    (compactItems (item :: next :: items)).toList =
      (compact item).toList ++ ',' :: (compactItems (next :: items)).toList := by
  simp [compactItems]

theorem toList_compactMembers_singleton (name : String) (value : Json) :
    (compactMembers [(name, value)]).toList =
      (stringText name).toList ++ ':' :: (compact value).toList := by
  simp [compactMembers]

theorem toList_compactMembers_cons (name : String) (value : Json) (next : String × Json)
    (members : List (String × Json)) :
    (compactMembers ((name, value) :: next :: members)).toList =
      (stringText name).toList ++ ':' :: ((compact value).toList ++
        ',' :: (compactMembers (next :: members)).toList) := by
  simp [compactMembers]

/-- A value that is read back from its compact text, whatever follows. -/
def ReadsBack (j : Json) : Prop := ∀ (fuel : Nat) (rest : List Char),
  2 * (compact j).toList.length < fuel → Ends rest →
    value? fuel ((compact j).toList ++ rest) = some (j, rest)

/-- Items that are read back one by one are read back as a list. -/
theorem items?_compact {items : List Json} (h : ∀ j ∈ items, ReadsBack j) (hne : items ≠ [])
    (fuel : Nat) (rest : List Char) (seen : List Json)
    (hf : 2 * (compactItems items).toList.length + 1 < fuel) :
    items? fuel ((compactItems items).toList ++ ']' :: rest) seen =
      some (seen.reverse ++ items, rest) := by
  induction items generalizing fuel seen with
  | nil => contradiction
  | cons item items ih =>
    obtain ⟨hitem, hitems⟩ := List.forall_mem_cons.mp h
    obtain ⟨fuel, rfl⟩ := Nat.exists_eq_succ_of_ne_zero (Nat.ne_zero_of_lt hf)
    cases items with
    | nil =>
      rw [compactItems] at hf ⊢
      rw [items?, hitem fuel _ (by omega) (ends_bracket rest)]
      simp [skipBlanks_cons (show isBlank ']' = false by decide)]
    | cons next items =>
      rw [toList_compactItems_cons] at hf ⊢
      rw [List.length_append, List.length_cons] at hf
      rw [List.append_assoc, List.cons_append, items?, hitem _ _ (by omega) (ends_comma _)]
      simp only [skipBlanks_cons (show isBlank ',' = false by decide)]
      rw [ih hitems (by simp) fuel (item :: seen) (by omega)]
      simp

/-- A member is read by its name and its value, and what follows decides whether it is the last. -/
theorem members?_succ {name : String} {value : Json} (hname : name.toList.length < fuel)
    (hc : isBlank c = false) (hvalue : value? fuel cs = some (value, c :: rest))
    (seen : List (String × Json)) :
    members? (fuel + 1) ((stringText name).toList ++ ':' :: cs) seen =
      if c = ',' then members? fuel rest ((name, value) :: seen)
      else if c = '\x7d' then some (seen.reverse ++ [(name, value)], rest) else none := by
  have hbody := stringBody?_escaped hname (':' :: cs) []
  rw [toList_stringText, List.cons_append, List.append_assoc, List.singleton_append, members?,
    skipBlanks_cons (by decide)]
  simp only [hbody, skipBlanks_cons (show isBlank ':' = false by decide), hvalue,
    skipBlanks_cons hc]
  split
  case h_1 heq =>
    obtain ⟨rfl, rfl⟩ := List.cons.inj heq
    simp
  case h_2 heq =>
    obtain ⟨rfl, rfl⟩ := List.cons.inj heq
    simp
  case h_3 hcomma hbrace =>
    rw [if_neg fun h => hcomma _ (congrArg (· :: rest) h),
      if_neg fun h => hbrace _ (congrArg (· :: rest) h)]

/-- Members whose values are read back one by one are read back as a list. -/
theorem members?_compact {members : List (String × Json)} (h : ∀ m ∈ members, ReadsBack m.2)
    (hne : members ≠ []) (fuel : Nat) (rest : List Char) (seen : List (String × Json))
    (hf : 2 * (compactMembers members).toList.length + 1 < fuel) :
    members? fuel ((compactMembers members).toList ++ '\x7d' :: rest) seen =
      some (seen.reverse ++ members, rest) := by
  induction members generalizing fuel seen with
  | nil => contradiction
  | cons m members ih =>
    obtain ⟨name, value⟩ := m
    obtain ⟨hvalue, hmembers⟩ := List.forall_mem_cons.mp h
    replace hvalue : ReadsBack value := hvalue
    obtain ⟨fuel, rfl⟩ := Nat.exists_eq_succ_of_ne_zero (Nat.ne_zero_of_lt hf)
    have hname := length_le_length_escaped name.toList
    cases members with
    | nil =>
      rw [toList_compactMembers_singleton] at hf ⊢
      simp only [toList_stringText, List.length_cons, List.length_append, List.length_nil] at hf
      have hread := hvalue fuel _ (by omega) (ends_brace rest)
      rw [List.append_assoc, List.cons_append, members?_succ (by omega) (by decide) hread]
      simp
    | cons next members =>
      rw [toList_compactMembers_cons] at hf ⊢
      simp only [toList_stringText, List.length_cons, List.length_append, List.length_nil] at hf
      have hmore := ih hmembers (by simp) fuel ((name, value) :: seen) (by omega)
      have hread := hvalue fuel
        (',' :: ((compactMembers (next :: members)).toList ++ '\x7d' :: rest)) (by omega)
        (ends_comma _)
      rw [List.append_assoc, List.cons_append, List.append_assoc, List.cons_append,
        members?_succ (by omega) (by decide) hread, if_pos rfl, hmore]
      simp

/-- The first unit of fuel is for the value itself. -/
theorem readsBack_of_succ {j : Json} (h : ∀ (fuel : Nat) (rest : List Char),
    2 * (compact j).toList.length ≤ fuel → Ends rest →
      value? (fuel + 1) ((compact j).toList ++ rest) = some (j, rest)) : j.ReadsBack := by
  intro fuel rest hf hr
  obtain ⟨fuel, rfl⟩ := Nat.exists_eq_succ_of_ne_zero (Nat.ne_zero_of_lt hf)
  exact h fuel rest (Nat.le_of_lt_succ hf) hr

theorem ReadsBack.arr {items : List Json} (h : ∀ j ∈ items, ReadsBack j) :
    ReadsBack (.arr items) := by
  refine readsBack_of_succ fun fuel rest hf _ => ?_
  have htext : (compact (.arr items)).toList = '[' :: ((compactItems items).toList ++ [']']) := by
    simp [compact]
  rw [htext] at hf ⊢
  simp only [List.length_cons, List.length_append, List.length_nil] at hf
  rw [List.cons_append, List.append_assoc, List.singleton_append]
  cases items with
  | nil => rfl
  | cons item items =>
    have hitems := items?_compact h (List.cons_ne_nil item items) fuel rest [] (by omega)
    rw [value?, skipBlanks_cons (by decide)]
    simp only [hitems]
    split
    · next hbracket =>
      rw [items?_bracket hbracket] at hitems
      contradiction
    · rfl

theorem ReadsBack.obj {members : List (String × Json)} (h : ∀ m ∈ members, ReadsBack m.2) :
    ReadsBack (.obj members) := by
  refine readsBack_of_succ fun fuel rest hf _ => ?_
  have htext : (compact (.obj members)).toList =
      '\x7b' :: ((compactMembers members).toList ++ ['\x7d']) := by
    simp [compact]
  rw [htext] at hf ⊢
  simp only [List.length_cons, List.length_append, List.length_nil] at hf
  rw [List.cons_append, List.append_assoc, List.singleton_append]
  cases members with
  | nil => rfl
  | cons m members =>
    have hmembers := members?_compact h (List.cons_ne_nil m members) fuel rest [] (by omega)
    rw [value?, skipBlanks_cons (by decide)]
    simp only [hmembers]
    split
    · next hbrace =>
      rw [members?_brace hbrace] at hmembers
      contradiction
    · rfl

/-- Every value that can be written is read back. -/
theorem Writable.readsBack {j : Json} (h : j.Writable) : j.ReadsBack := by
  induction h with
  | null => exact readsBack_of_succ fun fuel rest _ _ => rfl
  | bool b =>
    refine readsBack_of_succ fun fuel rest _ _ => ?_
    cases b <;> rfl
  | int hi => exact readsBack_of_succ fun fuel rest _ hr => value?_int hi fuel hr
  | float hx => exact readsBack_of_succ fun fuel rest _ hr => value?_float hx fuel hr
  | str s =>
    refine readsBack_of_succ fun fuel rest hf _ => ?_
    have hlength := length_le_length_escaped s.toList
    rw [compact, toList_stringText, List.length_cons, List.length_append] at hf
    exact value?_str s (by omega) rest
  | arr _ ih => exact .arr ih
  | obj _ ih => exact .obj ih

/-- What is written compactly is read back as the same value. -/
theorem parse?_compact {j : Json} (h : j.Writable) : parse? (compact j) = some j := by
  have hread := h.readsBack (2 * (compact j).toList.length + 2) [] (by omega) ends_nil
  rw [List.append_nil] at hread
  unfold parse?
  dsimp only
  rw [hread]
  rfl

end Values

section Reading

variable {j : Json}

/-- A number that is read whole has 64 bits. -/
theorem isWhole64_of_fits {negative b : Bool} {n : Nat}
    (h : (b && if negative then 0 < n && n ≤ Nat.pow 2 63 else n < UInt64.size) = true) :
    IsWhole64 (if negative then -(n : Int) else n) := by
  have hmin : Int64.minValue.toInt = -(2 ^ 63 : Nat) := by decide
  have hsize : UInt64.size = 2 ^ 64 := rfl
  obtain ⟨-, h⟩ := Bool.and_eq_true_iff.mp h
  cases negative with
  | true =>
    simp only [if_true, Bool.and_eq_true, decide_eq_true_eq, Nat.pow_eq] at h ⊢
    exact ⟨by omega, by omega⟩
  | false =>
    simp only [Bool.false_eq_true, if_false, decide_eq_true_eq] at h ⊢
    exact ⟨by omega, by omega⟩

/-- What a number is read as can be written. -/
theorem writable_of_number? {negative : Bool} (h : number? negative cs = some (j, rest)) :
    j.Writable := by
  have hend {b : Bool} {i : Int} (hi : b = true → IsWhole64 i) (x? : Option Binary64)
      (rest' : List Char) (h : (if b then some (int i, rest') else
        x?.bind fun x => if x.isFinite then some (float x, rest') else none) = some (j, rest)) :
      j.Writable := by
    split at h
    · next hb =>
      obtain ⟨rfl, -⟩ := Prod.mk.inj (Option.some.inj h)
      exact .int (hi hb)
    · obtain ⟨x, -, h⟩ := Option.bind_eq_some_iff.mp h
      split at h
      · next hx =>
        obtain ⟨rfl, -⟩ := Prod.mk.inj (Option.some.inj h)
        exact .float hx
      · contradiction
  unfold number? at h
  simp only [Option.bind_eq_bind, Option.bind_eq_some_iff] at h
  obtain ⟨⟨whole, rest₁⟩, -, h⟩ := h
  dsimp only at h
  split at h
  · split at h
    · contradiction
    · rw [Option.bind_some] at h
      obtain ⟨_, -, h⟩ := Option.bind_eq_some_iff.mp h
      exact hend isWhole64_of_fits _ _ h
  · rw [Option.bind_some] at h
    obtain ⟨_, -, h⟩ := Option.bind_eq_some_iff.mp h
    exact hend isWhole64_of_fits _ _ h

/-- What is read with this much fuel can be written: values by themselves, items and members after
others. -/
structure ReadsWritable (fuel : Nat) : Prop where
  value : ∀ {cs rest : List Char} {j : Json}, value? fuel cs = some (j, rest) → j.Writable
  items : ∀ {cs rest : List Char} {seen items : List Json}, (∀ j ∈ seen, j.Writable) →
    items? fuel cs seen = some (items, rest) → ∀ j ∈ items, j.Writable
  members : ∀ {cs rest : List Char} {seen members : List (String × Json)},
    (∀ m ∈ seen, m.2.Writable) →
      members? fuel cs seen = some (members, rest) → ∀ m ∈ members, m.2.Writable

namespace ReadsWritable

theorem value_succ (ih : ReadsWritable fuel) (h : value? (fuel + 1) cs = some (j, rest)) :
    j.Writable := by
  rw [value?] at h
  split at h
  · obtain ⟨_, -, heq⟩ := Option.map_eq_some_iff.mp h
    exact (Prod.mk.inj heq).1 ▸ .null
  · obtain ⟨_, -, heq⟩ := Option.map_eq_some_iff.mp h
    exact (Prod.mk.inj heq).1 ▸ .bool true
  · obtain ⟨_, -, heq⟩ := Option.map_eq_some_iff.mp h
    exact (Prod.mk.inj heq).1 ▸ .bool false
  · obtain ⟨_, -, heq⟩ := Option.map_eq_some_iff.mp h
    exact (Prod.mk.inj heq).1 ▸ .str _
  · split at h
    · obtain ⟨rfl, -⟩ := Prod.mk.inj (Option.some.inj h)
      exact .arr (by simp)
    · obtain ⟨_, hread, heq⟩ := Option.map_eq_some_iff.mp h
      exact (Prod.mk.inj heq).1 ▸ .arr (ih.items (by simp) hread)
  · split at h
    · obtain ⟨rfl, -⟩ := Prod.mk.inj (Option.some.inj h)
      exact .obj (by simp)
    · obtain ⟨_, hread, heq⟩ := Option.map_eq_some_iff.mp h
      exact (Prod.mk.inj heq).1 ▸ .obj (ih.members (by simp) hread)
  · exact writable_of_number? h
  · exact writable_of_number? h

theorem items_succ {seen items : List Json} (ih : ReadsWritable fuel)
    (hseen : ∀ j ∈ seen, j.Writable) (h : items? (fuel + 1) cs seen = some (items, rest)) :
    ∀ j ∈ items, j.Writable := by
  rw [items?] at h
  split at h
  · contradiction
  · next hitem =>
    have hmore := List.forall_mem_cons.mpr ⟨ih.value hitem, hseen⟩
    split at h
    · exact ih.items hmore h
    · obtain ⟨rfl, -⟩ := Prod.mk.inj (Option.some.inj h)
      exact fun j hj => hmore j (List.mem_reverse.mp hj)
    · contradiction

theorem members_succ {seen members : List (String × Json)} (ih : ReadsWritable fuel)
    (hseen : ∀ m ∈ seen, m.2.Writable) (h : members? (fuel + 1) cs seen = some (members, rest)) :
    ∀ m ∈ members, m.2.Writable := by
  rw [members?] at h
  split at h
  · split at h
    · contradiction
    · next name _ _ =>
      split at h
      · split at h
        · contradiction
        · next member _ hread =>
          have hmore : ∀ m ∈ (name, member) :: seen, m.2.Writable :=
            List.forall_mem_cons.mpr ⟨ih.value hread, hseen⟩
          split at h
          · exact ih.members hmore h
          · obtain ⟨rfl, -⟩ := Prod.mk.inj (Option.some.inj h)
            exact fun m hm => hmore m (List.mem_reverse.mp hm)
          · contradiction
      · contradiction
  · contradiction

end ReadsWritable

theorem readsWritable (fuel : Nat) : ReadsWritable fuel := by
  induction fuel with
  | zero => constructor <;> simp [value?, items?, members?]
  | succ fuel ih => exact ⟨ih.value_succ, ih.items_succ, ih.members_succ⟩

/-- What is read can be written. -/
theorem writable_of_parse? {s : String} (h : parse? s = some j) : j.Writable := by
  unfold parse? at h
  dsimp only at h
  split at h
  · next hread =>
    split at h
    · exact Option.some.inj h ▸ (readsWritable _).value hread
    · contradiction
  · contradiction

end Reading

end RowReplay.Json
