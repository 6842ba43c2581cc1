import RowReplay.Number.Binary64

/-! JSON values. A number is whole or floating, as its text says; members keep their order. -/
namespace RowReplay

inductive Json
  | null
  | bool (b : Bool)
  | int (i : Int)
  | float (x : Binary64)
  | str (s : String)
  | arr (items : List Json)
  | obj (members : List (String × Json))
  deriving Inhabited

namespace Json

/-- The value of the first member with this name. -/
def member? (name : String) : Json → Option Json
  | .obj members => members.lookup name
  | _ => none

def isNull : Json → Bool
  | .null => true
  | _ => false

def ofNat (n : Nat) : Json := .int n

/-- A value, or null for none. -/
def ofOption {α : Type} (encode : α → Json) : Option α → Json
  | some a => encode a
  | none => .null

end Json

end RowReplay
