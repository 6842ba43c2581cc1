import RowReplay.Json.Basic
import RowReplay.Number.Decimal
import RowReplay.Time.Timestamp

/-!
Data values: their kinds, their text, and their JSON form. The JSON form carries no tag, so reading
it back finds the kind from the shape alone.
-/
namespace RowReplay

/-- The kind of value a field holds. -/
inductive ValueKind
  | bool | int | float | text | bytes | timestamp
  deriving DecidableEq, Inhabited

namespace ValueKind

def all : List ValueKind := [.bool, .int, .float, .text, .bytes, .timestamp]

/-- The name in schemas. -/
def name : ValueKind → String
  | .bool => "bool"
  | .int => "int"
  | .float => "float"
  | .text => "text"
  | .bytes => "bytes"
  | .timestamp => "timestamp"

/-- The name with a capital letter, for descriptions. -/
def label : ValueKind → String
  | .bool => "Bool"
  | .int => "Int"
  | .float => "Float"
  | .text => "Text"
  | .bytes => "Bytes"
  | .timestamp => "Timestamp"

end ValueKind

/-- A single data value. -/
inductive Value
  | null
  | bool (b : Bool)
  | int (i : Int64)
  | float (x : Binary64)
  | text (s : String)
  | bytes (data : List UInt8)
  | timestamp (t : Timestamp)
  deriving Inhabited

namespace Value

/-- The name of the value's kind; a null has one of its own. -/
def kindName : Value → String
  | .null => "null"
  | .bool _ => ValueKind.bool.name
  | .int _ => ValueKind.int.name
  | .float _ => ValueKind.float.name
  | .text _ => ValueKind.text.name
  | .bytes _ => ValueKind.bytes.name
  | .timestamp _ => ValueKind.timestamp.name

/-- Plain text for people. -/
def display : Value → String
  | .null => "NULL"
  | .bool b => if b then "true" else "false"
  | .int i => toString i.toInt
  | .float x => NumeralLayout.display.text x
  | .text s => s
  | .bytes data => "<" ++ toString data.length ++ " bytes>"
  | .timestamp t => t.rfc3339 "+00:00"

/-- Equality of values of one kind, numeric for floats. Values of two kinds differ. -/
def equal : Value → Value → Bool
  | .null, .null => true
  | .bool a, .bool b => a == b
  | .int a, .int b => a == b
  | .float a, .float b => a.equal b
  | .text a, .text b => a == b
  | .bytes a, .bytes b => a == b
  | .timestamp a, .timestamp b => a == b
  | _, _ => false

/-- The JSON form. What is not finite has none and becomes null. -/
def toJson : Value → Json
  | .null => .null
  | .bool b => .bool b
  | .int i => .int i.toInt
  | .float x => if x.isFinite then .float x else .null
  | .text s => .str s
  | .bytes data => .arr (data.map fun b => .int b.toNat)
  | .timestamp t => .str (t.rfc3339 "Z")

/-- A whole number in the range of bytes. -/
def byteOfJson? : Json → Option UInt8
  | .int i => if 0 ≤ i ∧ i < 256 then some (UInt8.ofNat i.toNat) else none
  | _ => none

/-- The value of a JSON form: the first kind that fits. A whole number beyond 64 signed bits is
floating, and a list is bytes or nothing. -/
def ofJson? : Json → Option Value
  | .null => some .null
  | .bool b => some (.bool b)
  | .int i =>
    if Int64.minValue.toInt ≤ i ∧ i ≤ Int64.maxValue.toInt then some (.int (Int64.ofInt i))
    else some (.float (.ofInt i))
  | .float x => some (.float x)
  | .str s => some (.text s)
  | .arr items => (items.mapM byteOfJson?).map .bytes
  | .obj _ => none

/-- What is said of a JSON form that fits no kind. -/
def noKindMessage : String := "data did not match any variant of untagged enum Value"

end Value

end RowReplay
