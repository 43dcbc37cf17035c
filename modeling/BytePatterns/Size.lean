namespace BytePatterns

/-- An automaton of `states` states was wanted where `limit` are allowed. -/
structure TooComplex where
  states : Nat
  limit : Nat
deriving DecidableEq

namespace TooComplex

def message (e : TooComplex) : String :=
  "pattern is too complex: " ++ toString e.states ++ " states exceeds the limit of " ++
    toString e.limit

end TooComplex

/-- The greatest size that a machine word counts. -/
def greatestSize : Nat := USize.size - 1

/-- Sizes that cannot be counted are taken for the greatest one. -/
def saturated (size : Nat) : Nat := min size greatestSize

/-- A machine word has at least 32 bits. -/
theorem saturated_of_lt {size : Nat} (h : size < 4294967296) : saturated size = size :=
  Nat.min_eq_left (Nat.le_sub_one_of_lt (Nat.lt_of_lt_of_le h USize.le_size))

/-- Without a limit every size is allowed. -/
def checkSize (limit : Option Nat) (states : Nat) : Except TooComplex Unit :=
  match limit with
  | none => .ok ()
  | some most => if states ≤ most then .ok () else .error ⟨states, most⟩

end BytePatterns
