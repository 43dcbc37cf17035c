namespace BytePatterns.Unicode

/-- The tables hold closed ranges of code points, as of Unicode 17.0. -/
def inRanges (ranges : List (Nat × Nat)) (c : Char) : Bool :=
  ranges.any fun (low, high) ↦ low ≤ c.toNat && c.toNat ≤ high

end BytePatterns.Unicode
