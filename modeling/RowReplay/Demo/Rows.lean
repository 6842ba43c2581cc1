import RowReplay.Row.Basic

/-!
Rows that stand in for the result of an expensive query: numbered from zero, each one second older
than the one before.
-/
namespace RowReplay.Demo

def rowSchema : Schema :=
  ⟨[⟨"id", .int⟩, ⟨"source", .text⟩, ⟨"amount", .float⟩, ⟨"created_at", .timestamp⟩]⟩

/-- Amounts repeat after this many rows. -/
def amountPeriod : Nat := 10000

/-- One and a half for each row since the last repetition. -/
def amount (i : Nat) : Binary64 :=
  .ofMagnitude false (Magnitude.ofQuotient? (3 * (i % amountPeriod)) 2)

/-- The row with a number, if the calendar reaches back to its time. -/
def row? (query : String) (newest : Timestamp) (i : Nat) : Option Row :=
  (newest.earlier? i).map fun created =>
    ⟨rowSchema, [.int (Int64.ofNat i), .text query, .float (amount i), .timestamp created]⟩

/-- The rows of a query, if each of them has a time. -/
def rows? (query : String) (newest : Timestamp) (count : Nat) : Option RowSequence :=
  (List.range count).mapM (row? query newest)

end RowReplay.Demo
