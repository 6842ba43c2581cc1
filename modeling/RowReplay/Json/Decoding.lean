import RowReplay.Json.Printer

/-!
Reading records and named words from JSON values, and what is wrong when that fails. A record is an
object of its fields or an array of them in order; a word is a string or an object of one member
whose value is null.
-/
namespace RowReplay

/-- Two readings one after the other succeed if both do. -/
theorem bind_eq_ok {ε α β : Type} {x : Except ε α} {f : α → Except ε β} {b : β} :
    (x >>= f) = .ok b ↔ ∃ a, x = .ok a ∧ f a = .ok b := by
  cases x with
  | error e => exact ⟨fun h => (nomatch h), fun ⟨_, h, _⟩ => (nomatch h)⟩
  | ok a => exact ⟨fun h => ⟨a, rfl, h⟩, fun ⟨_, ha, h⟩ => Except.ok.inj ha ▸ h⟩

namespace Json

/-- Why a JSON value is not what was expected. -/
inductive DecodeError
  | invalidType (found : Json) (expected : String)
  | notSingleKey
  | unknownWord (word : String) (expected : List String)
  | missingField (name : String)
  | tooShort (length : Nat) (expected : String)
  | tooLong (length : Nat)

namespace DecodeError

/-- What a value is called when it is not expected. -/
def describe : Json → String
  | .null => "null"
  | .bool b => "boolean `" ++ (if b then "true" else "false") ++ "`"
  | .int i => "integer `" ++ toString i ++ "`"
  | .float x => "floating point `" ++ floatText x ++ "`"
  | .str s => "string " ++ Text.quoted s
  | .arr _ => "sequence"
  | .obj _ => "map"

/-- Words between backquotes: `a`, or `a or b`, or `one of a, b, c`. -/
def wordList (words : List String) : String :=
  let marked := words.map fun w => "`" ++ w ++ "`"
  match marked with
  | [a, b] => a ++ " or " ++ b
  | [a] => a
  | _ => "one of " ++ String.intercalate ", " marked

def message : DecodeError → String
  | .invalidType found expected => "invalid type: " ++ describe found ++ ", expected " ++ expected
  | .notSingleKey => "invalid value: map, expected map with a single key"
  | .unknownWord word expected => "unknown variant `" ++ word ++ "`, expected " ++ wordList expected
  | .missingField name => "missing field `" ++ name ++ "`"
  | .tooShort length expected => "invalid length " ++ toString length ++ ", expected " ++ expected
  | .tooLong length =>
    "invalid length " ++ toString length ++ ", expected fewer elements in array"

end DecodeError

def decodeString : Json → Except DecodeError String
  | .str s => .ok s
  | found => .error (.invalidType found "a string")

/-- One of the given words. -/
def decodeWord (words : List (String × α)) (j : Json) : Except DecodeError α :=
  let find (word : String) : Except DecodeError α :=
    match words.lookup word with
    | some a => .ok a
    | none => .error (.unknownWord word (words.map Prod.fst))
  match j with
  | .str s => find s
  | .obj [(word, content)] => do
    let a ← find word
    if content.isNull then .ok a else .error (.invalidType content "unit")
  | .obj _ => .error .notSingleKey
  | found => .error (.invalidType found "string or map")

end Json

end RowReplay
