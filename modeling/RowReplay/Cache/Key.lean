import RowReplay.Text.Quoted

/-! Cache keys: text, or whole numbers. -/
namespace RowReplay

inductive Key
  | text (s : String)
  | number (n : Nat)
  deriving DecidableEq, Inhabited

namespace Key

/-- The key as it is. -/
def plain : Key → String
  | .text s => s
  | .number n => toString n

/-- The key in messages: text is quoted. -/
def quoted : Key → String
  | .text s => Text.quoted s
  | .number n => toString n

end Key

end RowReplay
