/-!
Character classes given as a table of code point ranges, ends included.
-/

namespace OnePass.Text

/-- The ranges of a character class, each from its first to its last code point. -/
abbrev Ranges := List (Nat × Nat)

def Ranges.contains (table : Ranges) (c : Char) : Bool :=
  table.any fun r => decide (r.1 ≤ c.toNat) && decide (c.toNat ≤ r.2)

@[simp]
theorem Ranges.contains_iff (table : Ranges) (c : Char) :
    Ranges.contains table c = true ↔ ∃ r ∈ table, r.1 ≤ c.toNat ∧ c.toNat ≤ r.2 := by
  simp [Ranges.contains]

end OnePass.Text
