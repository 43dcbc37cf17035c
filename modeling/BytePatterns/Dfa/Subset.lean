import BytePatterns.Dfa
import BytePatterns.Exploration
import BytePatterns.Nfa
import BytePatterns.Size

namespace BytePatterns.Nfa

variable (n : Nfa)

/-- States that a set is named after: those from which all others are reached over empty moves. -/
abbrev Seeds := List Nat

def seedsOf? (moves : List (Symbol × Nat)) (sym : Symbol) : Option Seeds :=
  match targets moves sym with
  | [] => none
  | seeds => some seeds

/-- The sets reached from a set on the symbols of the alphabet. -/
def subsetRow (set : StateSet) : Row Seeds :=
  let moves := set.flatMap n.edges
  .tabulate n.alphabet (seedsOf? moves)

/-- There are no more sets than `2 ^ stateCount`. -/
def subsets : Exploration StateSet Seeds :=
  explore n.subsetRow n.closure (Nat.pow 2 n.stateCount) [n.start]

/-- The error is what has been numbered when the first set beyond the limit is met. -/
def subsetsWithin (limit : Option Nat) :
    Except (Exploration StateSet Seeds) (Exploration StateSet Seeds) :=
  exploreWithin n.subsetRow n.closure limit (Nat.pow 2 n.stateCount) [n.start]

/-- The automaton whose states are the numbered sets. -/
def subsetDfa (found : Exploration StateSet Seeds) : Dfa where
  start := 0
  states := found.nodes.zipWith (fun set row ↦ ⟨n.isAccepting set, row⟩) found.rows
  alphabet := n.alphabet

def toDfa : Dfa := n.subsetDfa n.subsets

/-- The set that is refused counts as one state more than those numbered before. -/
def toDfaWithin : (limit : Option Nat) → Except TooComplex Dfa
  | none => .ok n.toDfa
  | some most =>
    match n.subsetsWithin (some most) with
    | .ok found => .ok (n.subsetDfa found)
    | .error found => .error ⟨found.nodes.size + 1, most⟩

end BytePatterns.Nfa
