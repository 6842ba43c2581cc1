import RowReplay.Row.Schema

/-!
Rows and sequences of rows. A row pairs a schema with its values and may hold fewer or more values
than the schema has fields.
-/
namespace RowReplay

structure Row where
  schema : Schema
  values : List Value
  deriving Inhabited

namespace Row

/-- The value of the first field with this name, if the row is long enough to have one. -/
def get? (r : Row) (name : String) : Option Value :=
  (r.schema.indexOf? name).bind fun i => r.values[i]?

/-- Equal schemas and values that are equal one by one. -/
def equal (a b : Row) : Bool :=
  a.schema == b.schema && a.values.length == b.values.length &&
    (List.zipWith Value.equal a.values b.values).all id

/-- The row with the value at a position replaced, if there is one. -/
def setValue (r : Row) (i : Nat) (v : Value) : Row := { r with values := r.values.set i v }

end Row

/-- The rows that one computation produced, in order. -/
abbrev RowSequence := List Row

/-- The schema of a single whole number. -/
def countSchema : Schema := ⟨[⟨"n", .int⟩]⟩

/-- A row of one whole number. -/
def countRow (i : Int64) : Row := ⟨countSchema, [.int i]⟩

/-- The rows of one whole number each, counting from zero. -/
def countRows (n : Nat) : RowSequence := (List.range n).map fun i => countRow (Int64.ofNat i)

end RowReplay
