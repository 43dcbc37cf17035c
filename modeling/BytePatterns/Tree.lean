namespace BytePatterns

inductive Tree where
  | concat (first second : Tree)
  | altern (first second : Tree)
  | star (sub : Tree)
  | any
  | byte (value : UInt8)
  | empty
deriving DecidableEq

namespace Tree

def optional (t : Tree) : Tree := altern t empty

/-- The first half of the operands is the shorter one when their number is odd. -/
def balanced (join : Tree → Tree → Tree) : List Tree → Tree
  | [] => empty
  | [t] => t
  | t :: u :: rest =>
    let operands := t :: u :: rest
    let half := operands.length / 2
    join (balanced join (operands.take half)) (balanced join (operands.drop half))
termination_by operands => operands.length
decreasing_by all_goals simp; omega

def concatAll (operands : List Tree) : Tree := balanced concat operands

def alternAll (operands : List Tree) : Tree := balanced altern operands

def literal (bytes : List UInt8) : Tree := concatAll (bytes.map byte)

/-- The number of states of the automaton built for the tree. -/
def stateCount : Tree → Nat
  | concat first second => first.stateCount + second.stateCount
  | altern first second => first.stateCount + second.stateCount + 2
  | star sub => sub.stateCount + 2
  | any | byte _ | empty => 2

/-- The tree in constructor form. -/
def text : Tree → List Char
  | concat first second => "Concat(".toList ++ first.text ++ [',', ' '] ++ second.text ++ [')']
  | altern first second => "Altern(".toList ++ first.text ++ [',', ' '] ++ second.text ++ [')']
  | star sub => "Star(".toList ++ sub.text ++ [')']
  | any => "Dot".toList
  | byte value => "Literal(".toList ++ Nat.toDigits 10 value.toNat ++ [')']
  | empty => "Empty".toList

end Tree

end BytePatterns
