import Mathlib.Data.List.Forall2
import Mathlib.Data.List.Nodup
import RowReplay.Proofs.Json.RoundTrip
import RowReplay.Row.Schema

/-!
The spellings of a schema in JSON: each record as an object of its members in any order, perhaps
with others, or as the array of its members; each kind as its name, or as an object of that name.
Every spelling is read as the schema, nothing else is, and one of them is written.
-/
namespace RowReplay

open Json

variable {j : Json} {members : List (String × Json)} {items : List Json}

namespace Json

/-- Names stand once in each object. -/
inductive Unrepeated : Json → Prop
  | null : Unrepeated .null
  | bool (b : Bool) : Unrepeated (.bool b)
  | int (i : Int) : Unrepeated (.int i)
  | float (x : Binary64) : Unrepeated (.float x)
  | str (s : String) : Unrepeated (.str s)
  | arr {items : List Json} (h : ∀ j ∈ items, Unrepeated j) : Unrepeated (.arr items)
  | obj {members : List (String × Json)} (hnames : (members.map Prod.fst).Nodup)
      (h : ∀ m ∈ members, Unrepeated m.2) : Unrepeated (.obj members)

theorem mem_of_lookup {name : String} (h : members.lookup name = some j) : (name, j) ∈ members := by
  obtain ⟨before, after, rfl, -⟩ := List.lookup_eq_some_iff.mp h
  simp

theorem lookup_eq_some (hnames : (members.map Prod.fst).Nodup) {name : String}
    (h : (name, j) ∈ members) : members.lookup name = some j := by
  obtain ⟨before, after, rfl⟩ := List.append_of_mem h
  refine List.lookup_eq_some_iff.mpr ⟨before, after, rfl, fun m hm => ?_⟩
  rw [List.map_append, List.nodup_append] at hnames
  have hne := hnames.2.2 m.1 (List.mem_map_of_mem hm) name (by simp)
  simpa using hne.symm

end Json

/-- The spellings of a kind. -/
inductive ValueKind.Spells (k : ValueKind) : Json → Prop
  | name : k.Spells (.str k.name)
  | member : k.Spells (.obj [(k.name, .null)])

/-- The spellings of a field. -/
inductive Field.Spells (f : Field) : Json → Prop
  | object {members : List (String × Json)} {kind : Json}
      (hnames : (members.map Prod.fst).Nodup) (hname : ("name", .str f.name) ∈ members)
      (hkind : ("kind", kind) ∈ members) (h : f.kind.Spells kind) : f.Spells (.obj members)
  | array {kind : Json} (h : f.kind.Spells kind) : f.Spells (.arr [.str f.name, kind])

/-- The spellings of a schema. -/
inductive Schema.Spells (s : Schema) : Json → Prop
  | object {members : List (String × Json)} {items : List Json}
      (hnames : (members.map Prod.fst).Nodup) (hfields : ("fields", .arr items) ∈ members)
      (h : List.Forall₂ Field.Spells s.fields items) : s.Spells (.obj members)
  | array {items : List Json} (h : List.Forall₂ Field.Spells s.fields items) :
      s.Spells (.arr [.arr items])

namespace ValueKind

variable {k : ValueKind}

theorem lookup_name_iff {word : String} :
    (all.map fun k => (k.name, k)).lookup word = some k ↔ word = k.name := by
  constructor
  · intro h
    obtain ⟨before, after, heq, -⟩ := List.lookup_eq_some_iff.mp h
    have hmem : (word, k) ∈ all.map fun k => (k.name, k) := heq ▸ by simp
    obtain ⟨k', -, hk⟩ := List.mem_map.mp hmem
    obtain ⟨hword, rfl⟩ := Prod.mk.inj hk
    exact hword.symm
  · rintro rfl
    cases k <;> decide

theorem decodeWord_str (word : String) :
    decodeWord (all.map fun k => (k.name, k)) (.str word) = .ok k ↔ word = k.name := by
  rw [← lookup_name_iff]
  unfold decodeWord
  dsimp only
  cases h : (all.map fun k => (k.name, k)).lookup word <;> simp

theorem ofJson_eq_ok_iff : ofJson j = .ok k ↔ k.Spells j := by
  constructor
  · intro h
    unfold ofJson at h
    cases j with
    | str word =>
      obtain rfl := (decodeWord_str word).mp h
      exact .name
    | obj members =>
      match members, h with
      | [(word, content)], h =>
        obtain ⟨k', hword, h⟩ := bind_eq_ok.mp h
        cases content with
        | null =>
          obtain rfl := Except.ok.inj h
          obtain rfl := (decodeWord_str word).mp hword
          exact .member
        | _ => contradiction
    | _ => contradiction
  · rintro (_ | _)
    · exact (decodeWord_str _).mpr rfl
    · exact bind_eq_ok.mpr ⟨k, (decodeWord_str _).mpr rfl, rfl⟩

end ValueKind

theorem decodeString_eq_ok_iff {s : String} : decodeString j = .ok s ↔ j = .str s := by
  cases j <;> simp [decodeString]

theorem decodeMember_eq_some_iff {α : Type} {decode : Json → Except DecodeError α} {name : String}
    {a : α} : decodeMember decode name (.obj members) = .ok (some a) ↔
      ∃ value, members.lookup name = some value ∧ decode value = .ok a := by
  unfold decodeMember member?
  dsimp only
  cases members.lookup name with
  | none => simp
  | some value => cases h : decode value <;> simp [Except.map, h]

namespace Field

variable {f : Field}

/-- An object is read through the members that it needs. -/
theorem ofJson_obj_iff : ofJson (.obj members) = .ok f ↔
    members.lookup "name" = some (.str f.name) ∧
      ∃ kind, members.lookup "kind" = some kind ∧ f.kind.Spells kind := by
  constructor
  · intro h
    obtain ⟨kind?, hkind, h⟩ := bind_eq_ok.mp h
    obtain ⟨name?, hname, h⟩ := bind_eq_ok.mp h
    cases name? with
    | none => contradiction
    | some name =>
      cases kind? with
      | none => contradiction
      | some kind =>
        obtain rfl := Except.ok.inj h
        obtain ⟨j, hj, hname⟩ := decodeMember_eq_some_iff.mp hname
        obtain ⟨j', hj', hkind⟩ := decodeMember_eq_some_iff.mp hkind
        obtain rfl := decodeString_eq_ok_iff.mp hname
        exact ⟨hj, j', hj', ValueKind.ofJson_eq_ok_iff.mp hkind⟩
  · rintro ⟨hname, kind, hkind, h⟩
    have hread := ValueKind.ofJson_eq_ok_iff.mpr h
    refine bind_eq_ok.mpr ⟨some f.kind, decodeMember_eq_some_iff.mpr ⟨kind, hkind, hread⟩, ?_⟩
    exact bind_eq_ok.mpr ⟨some f.name, decodeMember_eq_some_iff.mpr ⟨_, hname, rfl⟩, rfl⟩

/-- An array is read if it has just the members. -/
theorem ofJson_arr_iff : ofJson (.arr items) = .ok f ↔
    ∃ kind, items = [.str f.name, kind] ∧ f.kind.Spells kind := by
  constructor
  · intro h
    match items, h with
    | [], h => contradiction
    | first :: rest, h =>
      obtain ⟨name, hname, h⟩ := bind_eq_ok.mp h
      obtain rfl := decodeString_eq_ok_iff.mp hname
      match rest, h with
      | [], h => contradiction
      | [second], h =>
        obtain ⟨kind, hkind, h⟩ := bind_eq_ok.mp h
        obtain rfl := Except.ok.inj h
        exact ⟨second, rfl, ValueKind.ofJson_eq_ok_iff.mp hkind⟩
      | second :: third :: more, h =>
        obtain ⟨kind, -, h⟩ := bind_eq_ok.mp h
        contradiction
  · rintro ⟨kind, rfl, h⟩
    exact bind_eq_ok.mpr ⟨f.name, rfl,
      bind_eq_ok.mpr ⟨f.kind, ValueKind.ofJson_eq_ok_iff.mpr h, rfl⟩⟩

theorem Spells.ofJson_eq (h : f.Spells j) : ofJson j = .ok f := by
  cases h with
  | object hnames hname hkind h =>
    exact ofJson_obj_iff.mpr ⟨lookup_eq_some hnames hname, _, lookup_eq_some hnames hkind, h⟩
  | array h => exact ofJson_arr_iff.mpr ⟨_, rfl, h⟩

theorem spells_of_ofJson (hj : j.Unrepeated) (h : ofJson j = .ok f) : f.Spells j := by
  cases j with
  | obj members =>
    obtain ⟨hname, kind, hkind, h⟩ := ofJson_obj_iff.mp h
    cases hj with
    | obj hnames => exact .object hnames (mem_of_lookup hname) (mem_of_lookup hkind) h
  | arr items =>
    obtain ⟨kind, rfl, hkind⟩ := ofJson_arr_iff.mp h
    exact .array hkind
  | _ => contradiction

theorem listOfJson_arr_iff {fields : List Field} :
    listOfJson j = .ok fields ↔
      ∃ items, j = .arr items ∧ List.Forall₂ (fun f j => ofJson j = .ok f) fields items := by
  cases j with
  | arr items =>
    simp only [listOfJson, Json.arr.injEq, exists_eq_left']
    induction items generalizing fields with
    | nil => simp [eq_comm, pure, Except.pure]
    | cons item items ih =>
      simp only [List.mapM_cons, bind_eq_ok, ih, List.forall₂_cons_right_iff]
      constructor
      · rintro ⟨f, hf, rest, hrest, h⟩
        exact ⟨f, rest, hf, hrest, (Except.ok.inj h).symm⟩
      · rintro ⟨f, rest, hf, hrest, rfl⟩
        exact ⟨f, hf, rest, hrest, rfl⟩
  | _ => simp [listOfJson]

end Field

namespace Schema

variable {s : Schema}

theorem ofJson_obj_iff : ofJson (.obj members) = .ok s ↔
    ∃ j, members.lookup "fields" = some j ∧ Field.listOfJson j = .ok s.fields := by
  constructor
  · intro h
    obtain ⟨fields?, hfields, h⟩ := bind_eq_ok.mp h
    cases fields? with
    | none => contradiction
    | some fields =>
      obtain rfl := Except.ok.inj h
      exact decodeMember_eq_some_iff.mp hfields
  · intro h
    exact bind_eq_ok.mpr ⟨some s.fields, decodeMember_eq_some_iff.mpr h, rfl⟩

theorem ofJson_arr_iff : ofJson (.arr items) = .ok s ↔
    ∃ j, items = [j] ∧ Field.listOfJson j = .ok s.fields := by
  constructor
  · intro h
    match items, h with
    | [], h => contradiction
    | [j], h =>
      obtain ⟨fields, hfields, h⟩ := bind_eq_ok.mp h
      obtain rfl := Except.ok.inj h
      exact ⟨j, rfl, hfields⟩
    | first :: second :: more, h =>
      obtain ⟨fields, -, h⟩ := bind_eq_ok.mp h
      contradiction
  · rintro ⟨j, rfl, h⟩
    exact bind_eq_ok.mpr ⟨s.fields, h, rfl⟩

theorem Spells.ofJson_eq (h : s.Spells j) : ofJson j = .ok s := by
  have hlist {items : List Json} (h : List.Forall₂ Field.Spells s.fields items) :
      Field.listOfJson (.arr items) = .ok s.fields :=
    Field.listOfJson_arr_iff.mpr ⟨items, rfl, h.imp fun _ _ hf => hf.ofJson_eq⟩
  cases h with
  | object hnames hfields h =>
    exact ofJson_obj_iff.mpr ⟨_, lookup_eq_some hnames hfields, hlist h⟩
  | array h => exact ofJson_arr_iff.mpr ⟨_, rfl, hlist h⟩

theorem forall₂_spells {items : List Json} {fields : List Field}
    (hitems : (arr items).Unrepeated) (hlist : Field.listOfJson (.arr items) = .ok fields) :
    List.Forall₂ Field.Spells fields items := by
  obtain ⟨items', heq, h⟩ := Field.listOfJson_arr_iff.mp hlist
  obtain rfl := Json.arr.inj heq
  cases hitems with
  | arr hitems =>
    clear heq hlist
    induction h with
    | nil => exact .nil
    | cons hf _ ih =>
      rw [List.forall_mem_cons] at hitems
      exact .cons (Field.spells_of_ofJson hitems.1 hf) (ih hitems.2)

theorem spells_of_ofJson (hj : j.Unrepeated) (h : ofJson j = .ok s) : s.Spells j := by
  cases j with
  | obj members =>
    obtain ⟨value, hfields, hlist⟩ := ofJson_obj_iff.mp h
    obtain ⟨items, rfl, -⟩ := Field.listOfJson_arr_iff.mp hlist
    have hmem := mem_of_lookup hfields
    cases hj with
    | obj hnames hmembers =>
      exact .object hnames hmem (forall₂_spells (hmembers _ hmem) hlist)
  | arr items =>
    obtain ⟨value, rfl, hlist⟩ := ofJson_arr_iff.mp h
    obtain ⟨items, rfl, -⟩ := Field.listOfJson_arr_iff.mp hlist
    cases hj with
    | arr hitems => exact .array (forall₂_spells (hitems _ (by simp)) hlist)
  | _ => contradiction

/-- What is written is one of the spellings. -/
theorem spells_toJson (s : Schema) : s.Spells s.toJson := by
  refine .object (by simp) (List.mem_singleton_self _) ?_
  rw [List.forall₂_map_right_iff, List.forall₂_same]
  intro f _
  exact .object (by simp) (by simp) (by simp) .name

theorem writable_toJson (s : Schema) : s.toJson.Writable := by
  refine .obj fun m hm => ?_
  obtain rfl := List.mem_singleton.mp hm
  refine .arr fun j hj => ?_
  obtain ⟨f, -, rfl⟩ := List.mem_map.mp hj
  refine .obj fun m hm => ?_
  simp only [List.mem_cons, List.not_mem_nil, or_false] at hm
  rcases hm with rfl | rfl <;> exact .str _

/-- Reads a schema and writes it. -/
def normalize (j : Json) : Except DecodeError Json := (ofJson j).map toJson

/-- Every schema comes back from its JSON form, and from the text of that. A JSON value without
repeated names is read as a schema if and only if it is one of the schema's spellings, so reading
and writing brings every spelling into the form that is written, and this form stays as it is. -/
theorem schema_round_trip :
    (∀ s : Schema, ofJson s.toJson = .ok s ∧
      (parse? (compact s.toJson)).map ofJson = some (.ok s)) ∧
    (∀ (s : Schema) (j : Json), s.Spells j → ofJson j = .ok s ∧ normalize j = .ok s.toJson) ∧
    (∀ (s : Schema) (j : Json), j.Unrepeated → ofJson j = .ok s → s.Spells j) ∧
    (∀ s : Schema, s.Spells s.toJson) ∧
    ∀ j j' : Json, normalize j = .ok j' → normalize j' = .ok j' := by
  have hwritten (s : Schema) : ofJson s.toJson = .ok s := s.spells_toJson.ofJson_eq
  refine ⟨fun s => ⟨hwritten s, ?_⟩, fun s j h => ?_, fun s j => spells_of_ofJson, spells_toJson,
    fun j j' h => ?_⟩
  · rw [parse?_compact (writable_toJson s), Option.map_some, hwritten]
  · rw [normalize, h.ofJson_eq]
    exact ⟨rfl, rfl⟩
  · unfold normalize at h ⊢
    cases hread : ofJson j with
    | error e =>
      rw [hread] at h
      contradiction
    | ok s =>
      rw [hread] at h
      obtain rfl := Except.ok.inj h
      rw [hwritten]
      rfl

/-- A schema as an array, its fields spelled in two ways, the first of them with another member. -/
def mixedSpelling : Json :=
  .arr [.arr [
    .obj [("kind", .obj [("int", .null)]), ("note", .null), ("name", .str "a")],
    .arr [.str "a", .str "text"]]]

theorem schema_round_trip_sample :
    Spells ⟨[⟨"a", .int⟩, ⟨"a", .text⟩]⟩ mixedSpelling ∧ mixedSpelling.Unrepeated ∧
      ofJson mixedSpelling = .ok ⟨[⟨"a", .int⟩, ⟨"a", .text⟩]⟩ ∧
      ∃ j, normalize mixedSpelling = .ok j ∧ normalize j = .ok j := by
  obtain ⟨-, hspelled, hread, -, hstays⟩ := schema_round_trip
  have hint : ValueKind.int.Spells (.obj [("int", .null)]) := .member
  have hspells : Spells ⟨[⟨"a", .int⟩, ⟨"a", .text⟩]⟩ mixedSpelling :=
    .array (.cons (.object (by simp) (by simp) (by simp) hint) (.cons (.array .name) .nil))
  have hkind : (obj [("int", null)]).Unrepeated := .obj (by simp) (by simp [Unrepeated.null])
  have hobject :
      (obj [("kind", obj [("int", null)]), ("note", null), ("name", str "a")]).Unrepeated :=
    .obj (by simp) (by simp [hkind, Unrepeated.null, Unrepeated.str])
  have harray : (arr [str "a", str "text"]).Unrepeated := .arr (by simp [Unrepeated.str])
  have hunrepeated : mixedSpelling.Unrepeated :=
    .arr (List.forall_mem_singleton.mpr (.arr (by simp [hobject, harray])))
  obtain ⟨hok, hnormal⟩ := hspelled _ _ hspells
  exact ⟨hread _ _ hunrepeated hok, hunrepeated, hok, _, hnormal, hstays _ _ hnormal⟩

end Schema

end RowReplay
