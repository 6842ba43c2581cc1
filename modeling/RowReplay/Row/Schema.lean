import RowReplay.Json.Decoding
import RowReplay.Row.Value

/-!
Schemas: ordered lists of named fields. Names may repeat, and a name stands for the first field that
has it. A schema is written as an object; it is read from an object or from an array of its parts.
-/
namespace RowReplay

/-- One named column of a row. -/
structure Field where
  name : String
  kind : ValueKind
  deriving DecidableEq, Inhabited

/-- The ordered fields of a row. -/
structure Schema where
  fields : List Field
  deriving DecidableEq, Inhabited

namespace Schema

def size (s : Schema) : Nat := s.fields.length

/-- The position of the first field with this name. -/
def indexOf? (s : Schema) (name : String) : Option Nat :=
  s.fields.findIdx? (·.name == name)

end Schema

namespace Field

def toJson (f : Field) : Json := .obj [("name", .str f.name), ("kind", .str f.kind.name)]

/-- The field as a record in words. -/
def describe (f : Field) : String :=
  "Field \x7b name: " ++ Text.quoted f.name ++ ", kind: " ++ f.kind.label ++ " \x7d"

end Field

def Schema.toJson (s : Schema) : Json := .obj [("fields", .arr (s.fields.map Field.toJson))]

def ValueKind.ofJson (j : Json) : Except Json.DecodeError ValueKind :=
  Json.decodeWord (ValueKind.all.map fun k => (k.name, k)) j

/-- Reads a member if it is there. -/
def decodeMember {α : Type} (decode : Json → Except Json.DecodeError α) (name : String)
    (j : Json) : Except Json.DecodeError (Option α) :=
  match j.member? name with
  | some value => (decode value).map some
  | none => .ok none

namespace Field

/-- Members are read in the order of their names, before any is found missing. -/
def ofJson (j : Json) : Except Json.DecodeError Field :=
  match j with
  | .obj _ => do
    let kind ← decodeMember ValueKind.ofJson "kind" j
    let name ← decodeMember Json.decodeString "name" j
    match name, kind with
    | some name, some kind => .ok ⟨name, kind⟩
    | none, _ => .error (.missingField "name")
    | some _, none => .error (.missingField "kind")
  | .arr items => do
    match items with
    | [] => .error (.tooShort 0 "struct Field with 2 elements")
    | first :: rest =>
      let name ← Json.decodeString first
      match rest with
      | [] => .error (.tooShort 1 "struct Field with 2 elements")
      | second :: more =>
        let kind ← ValueKind.ofJson second
        if more.isEmpty then .ok ⟨name, kind⟩ else .error (.tooLong items.length)
  | found => .error (.invalidType found "struct Field")

def listOfJson : Json → Except Json.DecodeError (List Field)
  | .arr items => items.mapM ofJson
  | found => .error (.invalidType found "a sequence")

end Field

def Schema.ofJson (j : Json) : Except Json.DecodeError Schema :=
  match j with
  | .obj _ => do
    match ← decodeMember Field.listOfJson "fields" j with
    | some fields => .ok ⟨fields⟩
    | none => .error (.missingField "fields")
  | .arr items =>
    match items with
    | [] => .error (.tooShort 0 "struct RowSchema with 1 element")
    | first :: more => do
      let fields ← Field.listOfJson first
      if more.isEmpty then .ok ⟨fields⟩ else .error (.tooLong items.length)
  | found => .error (.invalidType found "struct RowSchema")

end RowReplay
