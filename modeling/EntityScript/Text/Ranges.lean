/-! # Ranges of characters -/

namespace EntityScript.Text

/-- Whether the code point of a character lies in one of the ranges, ends included. -/
def inRanges (ranges : Array (Nat × Nat)) (c : Char) : Bool :=
  ranges.any fun (low, high) => low ≤ c.toNat && c.toNat ≤ high

end EntityScript.Text
