import BytePatterns.Regex
import Mathlib.Computability.Language

namespace BytePatterns.Regex

mutual

/-- A scalar value stands for the byte with its code, if there is one, and an
assertion describes no word. -/
def language : Regex → Language UInt8
  | empty => 1
  | literal word => {word}
  | bytes intervals => {w | ∃ b, w = [b] ∧ ∃ i ∈ intervals, i.first ≤ b ∧ b ≤ i.last}
  | scalars intervals =>
    {w | ∃ b, w = [b] ∧ ∃ i ∈ intervals, i.first.toNat ≤ b.toNat ∧ b.toNat ≤ i.last.toNat}
  | look _ => 0
  | repetition least most _ sub =>
    {w | ∃ k, least ≤ k ∧ (∀ bound ∈ most, k ≤ bound) ∧ w ∈ sub.language ^ k}
  | capture _ _ sub => sub.language
  | concat items => product items
  | alternation branches => sum branches

/-- Words of the items, one behind the other. -/
def product : List Regex → Language UInt8
  | [] => 1
  | r :: rest => r.language * product rest

/-- Words of any of the branches. -/
def sum : List Regex → Language UInt8
  | [] => 0
  | r :: rest => r.language + sum rest

end

end BytePatterns.Regex
