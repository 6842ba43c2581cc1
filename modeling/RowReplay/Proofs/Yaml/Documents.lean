import RowReplay.Proofs.Yaml.Scalars

/-!
Mappings and documents. Keys with values that are read, each on lines of its own, are read as a
mapping, whatever follows to the left of them; a document of such a mapping is read as its node.
-/
namespace RowReplay.Yaml

open Cursor

variable {c : Char} {cs rest value text : List Char} {name : String} {node : Node}
  {nodes : List (Node × Node)} {need least line column fuel : Nat}

section Keys

/-- Small letters and underscores, a letter first. -/
def isKey (cs : List Char) : Bool :=
  cs.head?.any Char.isLower && cs.all fun c => c.isLower || c = '_'

/-- A key begins with a letter. -/
theorem exists_key_eq_cons (h : isKey cs = true) : ∃ c more, cs = c :: more ∧ c.isLower = true ∧
    ∀ d ∈ c :: more, d.isLower = true ∨ d = '_' := by
  cases cs with
  | nil => contradiction
  | cons c more =>
    simp only [isKey, List.head?_cons, Option.any_some, Bool.and_eq_true, List.all_eq_true,
      Bool.or_eq_true, decide_eq_true_eq] at h
    exact ⟨c, more, rfl, h⟩

/-- A key as a node. -/
def keyNode (name : String) : Node := .scalar none .plain name

theorem plainFrom_key (hcs : ∀ c ∈ cs, c.isLower = true ∨ c = '_') (hrest : endsWord rest = true)
    (line column : Nat) :
    plainFrom false least .none line column (cs ++ ':' :: rest) =
      some (cs, ⟨line, column + cs.length, ':' :: rest⟩) := by
  induction cs generalizing column with
  | nil =>
    have hends : endsPlainAfter false least .none column (':' :: rest) = false := rfl
    simp [plainFrom, isBreak, isBlank, hends, isStrayColon, endsPlain, hrest]
  | cons c cs ih =>
    rw [List.forall_mem_cons] at hcs
    have hletter : isBreak c = false ∧ isBlank c = false ∧ c ≠ ':' := by
      rcases hcs.1 with hc | rfl
      · exact ⟨isBreak_of_isLower hc, isBlank_of_isLower hc, ne_of_isLower hc rfl⟩
      · decide
    obtain ⟨hbreak, hblank, hcolon⟩ := hletter
    rw [List.cons_append, Gap.none, plainFrom_visible hblank hbreak (fun hnil => absurd rfl hnil)
      (fun hc => absurd hc hcolon), ih hcs.2]
    simp [Nat.add_comm, Nat.add_left_comm]

theorem startsPlain_key (h : isKey cs = true) (rest : List Char) : StartsPlain (cs ++ rest) := by
  obtain ⟨c, more, rfl, hc, -⟩ := exists_key_eq_cons h
  refine ⟨contains_marks_eq_false (by decide) hc, isBlank_of_isLower hc, isBreak_of_isLower hc,
    fun hmark => ?_⟩
  rcases hmark with rfl | rfl | rfl <;> contradiction

/-- A letter is no hyphen or question mark, and the document does not end there. -/
theorem letter_cases (hc : c.isLower = true) (line column : Nat) (rest : List Char) :
    atDash ⟨line, column, c :: rest⟩ = false ∧ atQuestion ⟨line, column, c :: rest⟩ = false ∧
      atEnd ⟨line, column, c :: rest⟩ = false := by
  refine ⟨?_, ?_, ?_⟩
  · unfold atDash
    split <;> simp_all
  · unfold atQuestion
    split <;> simp_all
  · have hmarker : isMarker (c :: rest) = false := by
      unfold isMarker
      split <;> simp_all
    simp only [atEnd, hmarker, Bool.and_false]
    rfl

/-- A place where a key is next, and the place of its value. -/
structure AtKey (name : String) (c after : Cursor) : Prop where
  atDash_eq : c.atDash = false
  atQuestion_eq : atQuestion c = false
  atEnd_eq : c.atEnd = false
  properties?_eq : properties? false 3 .none c = some (.none, c)
  inlineNode?_eq : ∀ fuel least, ∃ colon,
    inlineNode? fuel least c = some (keyNode name, colon) ∧ afterColon? false c colon = some after

theorem atKey (h : isKey name.toList = true) (hvalue : endsWord value = true)
    (line column : Nat) :
    AtKey name ⟨line, column, name.toList ++ ':' :: value⟩
      ⟨line, column + name.toList.length + 1, value⟩ := by
  have hplain := startsPlain_key h (':' :: value)
  obtain ⟨c, cs, hname, hc, hall⟩ := exists_key_eq_cons h
  obtain ⟨hdash, hquestion, hend⟩ := letter_cases hc line column (cs ++ ':' :: value)
  have hnone := properties?_none hplain.startsScalar line column
  refine ⟨?_, ?_, ?_, hnone, fun fuel least => ?_⟩
  · rwa [hname]
  · rwa [hname]
  · rwa [hname]
  · refine ⟨⟨line, column + name.toList.length, ':' :: value⟩, ?_, ?_⟩
    · rw [inlineNode?_plain hplain, plainFrom_key (hname ▸ hall) hvalue]
      simp [keyNode]
    · simp [afterColon?, afterBlanks, isBlank, forward, hvalue]

end Keys

section Members

/-- Lines that hold the members of a mapping, keys in the same column and values that are read
before what follows them. -/
inductive Members (need column : Nat) (rest : List Char) :
    List Char → List (Node × Node) → Prop
  | nil : Members need column rest [] []
  | cons {name : String} {value text : List Char} {node : Node} {nodes : List (Node × Node)} :
      isKey name.toList = true → (∀ more, endsWord (value ++ more) = true) →
      Reads need column value (text ++ rest) node → Members need column rest text nodes →
      Members need column rest
        (List.replicate column ' ' ++ (name.toList ++ ':' :: (value ++ text)))
        ((keyNode name, node) :: nodes)

/-- The members from the value of a key on are read if those from the next line on are. -/
theorem membersAfter?_reads (hread : Reads need column value (text ++ rest) node)
    (hmore : ∀ line, ∃ line',
      rest? fuel column (ofLine line (text ++ rest)) = some (nodes, ofLine line' rest))
    (hfuel : need ≤ fuel) (key : Node) (line column' : Nat) : ∃ line',
    membersAfter? (fuel + 1) column key false ⟨line, column', value ++ (text ++ rest)⟩ =
      some ((key, node) :: nodes, ofLine line' rest) := by
  obtain ⟨after, line₁, hvalue, hnext⟩ := hread fuel line column' hfuel
  obtain ⟨line', hrest⟩ := hmore line₁
  exact ⟨line', by simp [membersAfter?, hvalue, hnext, hrest]⟩

/-- A key begins a mapping. -/
theorem AtKey.blockNode?_eq {c after : Cursor} (h : AtKey name c after) (least : Nat) :
    blockNode? (fuel + 1) least true c =
      (membersAfter? fuel c.column (keyNode name) false after).map fun (members, after) =>
        (.mapping members, after) := by
  obtain ⟨colon, hinline, hcolon⟩ := h.inlineNode?_eq fuel least
  have hnothing : Properties.none.isNone = true := rfl
  rw [blockNode?]
  simp only [h.atDash_eq, h.atQuestion_eq, h.properties?_eq, hnothing, hinline, hcolon,
    Bool.false_eq_true, if_false, if_true, Bool.not_true, Bool.false_and]
  rfl

/-- A key in the column of a mapping goes on with it. -/
theorem AtKey.rest?_eq {c after : Cursor} (h : AtKey name c after) :
    rest? (fuel + 1 + 1) c.column c = membersAfter? fuel c.column (keyNode name) false after := by
  obtain ⟨colon, hinline, hcolon⟩ := h.inlineNode?_eq fuel (c.column + 1)
  rw [rest?, members?, implicitKey?]
  simp [h.atQuestion_eq, h.atEnd_eq, h.properties?_eq, hinline, hcolon]
  rfl

theorem ofLine_key (h : isKey name.toList = true) (line column : Nat) (rest : List Char) :
    ofLine line (List.replicate column ' ' ++ (name.toList ++ rest)) =
      ⟨line, column, name.toList ++ rest⟩ := by
  obtain ⟨c, cs, hname, hc, -⟩ := exists_key_eq_cons h
  rw [hname]
  exact ofLine_indented hc line column (cs ++ rest)

theorem isLine_key (h : isKey name.toList = true) (hcolumn : column < least) (rest : List Char) :
    IsLine least (List.replicate column ' ' ++ (name.toList ++ rest)) := by
  obtain ⟨c, cs, hname, hc, -⟩ := exists_key_eq_cons h
  exact ⟨column, c, cs ++ rest, hcolumn, hc, by rw [hname]; rfl⟩

/-- Lines that hold members are read from the next of them on. -/
theorem Members.rest?_eq (h : Members need column rest text nodes) (hrest : Below column rest)
    (hfuel : need + 3 * nodes.length < fuel) (line : Nat) : ∃ line',
    rest? fuel column (ofLine line (text ++ rest)) = some (nodes, ofLine line' rest) := by
  induction h generalizing fuel line with
  | nil =>
    obtain ⟨fuel, rfl⟩ := Nat.exists_eq_succ_of_ne_zero (Nat.ne_zero_of_lt hfuel)
    refine ⟨line, ?_⟩
    obtain ⟨line', heq⟩ | ⟨line', k, c, more, hk, -, heq⟩ := hrest.ofLine_cases line
    · simp [rest?, heq, atEnd]
    · simp [rest?, heq, hk]
  | @cons name value text node nodes hkey hvalue hread _ ih =>
    rw [List.length_cons] at hfuel
    obtain ⟨fuel, rfl⟩ : ∃ k, fuel = k + 1 + 1 + 1 := ⟨fuel - 3, by omega⟩
    have hmore : need + 3 * nodes.length < fuel := by omega
    obtain ⟨line', hmembers⟩ := membersAfter?_reads hread (ih hmore) (by omega) (keyNode name)
      line (column + name.toList.length + 1)
    refine ⟨line', ?_⟩
    rw [List.append_assoc, List.append_assoc, List.cons_append, List.append_assoc,
      ofLine_key hkey]
    exact (atKey hkey (hvalue _) line column).rest?_eq.trans hmembers

/-- A mapping begins at the next place. -/
theorem Members.blockNode?_eq (h : Members need column rest text nodes) (hrest : Below column rest)
    (hne : nodes ≠ []) (hfuel : need + 3 * nodes.length < fuel) (least line : Nat) : ∃ line',
    blockNode? fuel least true (ofLine line (text ++ rest)) =
      some (.mapping nodes, ofLine line' rest) := by
  cases h with
  | nil => contradiction
  | @cons name value text node nodes hkey hvalue hread hmembers =>
    rw [List.length_cons] at hfuel
    obtain ⟨fuel, rfl⟩ : ∃ k, fuel = k + 1 + 1 := ⟨fuel - 2, by omega⟩
    have hmore : need + 3 * nodes.length < fuel := by omega
    obtain ⟨line', hafter⟩ := membersAfter?_reads hread (hmembers.rest?_eq hrest hmore) (by omega)
      (keyNode name) line (column + name.toList.length + 1)
    refine ⟨line', ?_⟩
    rw [List.append_assoc, List.append_assoc, List.cons_append, List.append_assoc,
      ofLine_key hkey]
    rw [(atKey hkey (hvalue _) line column).blockNode?_eq, hafter]
    rfl

/-- The first member is next. -/
theorem Members.exists_atKey (h : Members need column rest text nodes) (hne : nodes ≠ [])
    (line : Nat) : ∃ name cs after, ofLine line (text ++ rest) = ⟨line, column, cs⟩ ∧
      AtKey name ⟨line, column, cs⟩ after := by
  cases h with
  | nil => contradiction
  | @cons name value text node nodes hkey hvalue hread hmembers =>
    refine ⟨name, _, _, ?_, atKey hkey (hvalue (text ++ rest)) line column⟩
    rw [List.append_assoc, List.append_assoc, List.cons_append, List.append_assoc,
      ofLine_key hkey]

/-- A mapping in lines below its key, indented more. -/
theorem Members.reads {outer : Nat} (h : Members need column rest text nodes)
    (hrest : Below column rest) (hne : nodes ≠ []) (houter : outer < column) :
    Reads (need + 3 * nodes.length + 2) outer ('\n' :: text) rest (.mapping nodes) := by
  intro fuel line column' hfuel
  obtain ⟨fuel, rfl⟩ : ∃ k, fuel = k + 1 := ⟨fuel - 1, by omega⟩
  have hmore : need + 3 * nodes.length < fuel := by omega
  obtain ⟨line', hblock⟩ := h.blockNode?_eq hrest hne hmore (outer + 1) (line + 1)
  obtain ⟨name, cs, after, hplace, hkey⟩ := h.exists_atKey hne (line + 1)
  have hnext : next ⟨line, column', '\n' :: (text ++ rest)⟩ true = ⟨line + 1, column, cs⟩ := hplace
  have hend := hkey.atEnd_eq
  have hempty : cs.isEmpty = false := (Bool.or_eq_false_iff.mp hend).1
  refine ⟨_, line', ?_, (leads_ofLine hrest line').next_eq⟩
  rw [hplace] at hblock
  rw [List.cons_append, value?]
  simp [hnext, hend, hempty, Nat.not_lt.mpr (Nat.le_of_lt houter), Nat.ne_of_gt houter, hblock]

end Members

section Documents

theorem isAllowed_of_isPrintable (hc : isPrintable c = true) : isAllowed c = true := by
  simp only [isPrintable, isAllowed, Bool.or_eq_true, Bool.and_eq_true, decide_eq_true_eq] at *
  omega

/-- Line feeds are the only ends of lines that are made into line feeds. -/
theorem normalizeBreaks_of_isPrintable (h : ∀ c ∈ cs, isPrintable c = true) :
    normalizeBreaks cs = cs := by
  induction cs with
  | nil => rfl
  | cons c cs ih =>
    rw [List.forall_mem_cons] at h
    have hreturn : c ≠ '\r' := ne_of_isPrintable h.1 (by decide)
    have hnext : c.toNat ≠ 0x85 := by
      intro hnext
      simp [isPrintable, hnext] at h
    rw [normalizeBreaks]
    · rw [ih h.2, if_neg hnext]
    · simp [hreturn]
    · simp [hreturn]

/-- A text that begins with a letter has neither directives nor a marker. -/
theorem ofText?_letter (hc : c.isLower = true)
    (hprintable : ∀ d ∈ c :: cs, isPrintable d = true) {after : Cursor}
    (hread : blockNode? (4 * (c :: cs).length + 8) 0 true ⟨0, 0, c :: cs⟩ = some (node, after))
    (hafter : (after.next true).rest = []) (hresolve : node.resolve [] = some (node, [])) :
    Document.ofText? (String.ofList (c :: cs)) = some ⟨some node, 0, 0⟩ := by
  have hstart : (Cursor.start (c :: cs)).next false = ⟨0, 0, c :: cs⟩ :=
    skip_of_visible (isBlank_of_isLower hc) (isBreak_of_isLower hc) (ne_of_isLower hc rfl) false 0 0
      cs
  have hallowed : (c :: cs).all isAllowed = true :=
    List.all_eq_true.mpr fun d hd => isAllowed_of_isPrintable (hprintable d hd)
  have hmarker : isMarker (c :: cs) = false := by
    unfold isMarker
    split <;> simp_all
  have hpercent : c ≠ '%' := ne_of_isLower hc rfl
  have hmark : c ≠ '\ufeff' := ne_of_isLower hc rfl
  have hend := (letter_cases hc 0 0 cs).2.2
  have hdirectives : directives? (4 * (c :: cs).length + 8) false ⟨0, 0, c :: cs⟩ =
      some (false, ⟨0, 0, c :: cs⟩) := by
    simp [directives?, hpercent]
  have hroot : rootNode? (4 * (c :: cs).length + 8) false ⟨0, 0, c :: cs⟩ =
      some (node, ⟨0, 0, c :: cs⟩, after.next true) := by
    simp only [rootNode?, hend, Bool.false_eq_true, if_false, Bool.not_false, Bool.true_or, hread]
    rfl
  have hcomplete : isComplete (after.next true) = true := by simp [isComplete, hafter]
  unfold Document.ofText?
  rw [String.toList_ofList]
  dsimp only
  split
  · next heq => exact absurd (List.cons.inj heq).1 hmark
  · simp only [hallowed, normalizeBreaks_of_isPrintable hprintable, hstart, hdirectives, hmarker,
      hroot, hcomplete, hresolve, Bool.not_true, Bool.false_eq_true, if_false, if_true,
      Bool.and_false, Bool.false_and]
    rfl

/-- A document of a mapping is read as its node. -/
theorem ofText?_members (h : Members need 0 rest text nodes) (hrest : Below 0 rest)
    (hne : nodes ≠ []) (hprintable : ∀ c ∈ text ++ rest, isPrintable c = true)
    (hneed : need + 3 * nodes.length < 4 * (text ++ rest).length + 8)
    (hresolve : Node.resolve [] (.mapping nodes) = some (.mapping nodes, [])) :
    Document.ofText? (String.ofList (text ++ rest)) = some ⟨some (.mapping nodes), 0, 0⟩ := by
  obtain ⟨c, cs, htext, hc⟩ : ∃ c cs, text ++ rest = c :: cs ∧ c.isLower = true := by
    cases h with
    | nil => contradiction
    | @cons name value text node nodes hkey =>
      obtain ⟨c, cs, hname, hc, -⟩ := exists_key_eq_cons hkey
      exact ⟨c, _, by rw [hname]; rfl, hc⟩
  obtain ⟨line', hblock⟩ := h.blockNode?_eq hrest hne hneed 0 0
  rw [htext] at hprintable hblock ⊢
  have hplace : ofLine 0 (c :: cs) = ⟨0, 0, c :: cs⟩ := ofLine_indented hc 0 0 cs
  rw [hplace] at hblock
  refine ofText?_letter hc hprintable hblock ?_ hresolve
  rw [(leads_ofLine hrest line').next_eq]
  obtain ⟨line, heq⟩ | ⟨line, k, d, more, hk, -⟩ := hrest.ofLine_cases line'
  · rw [heq]
  · exact absurd hk (Nat.not_lt_zero k)

end Documents

end RowReplay.Yaml
