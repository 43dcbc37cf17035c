import BytePatterns.Dfa
import BytePatterns.Nfa

namespace BytePatterns

namespace Diagram

def number (k : Nat) : List Char := Nat.toDigits 10 k

def line (parts : List (List Char)) : List Char := parts.flatten ++ ['\n']

def startLine (s : Nat) : List Char := line ["Start State : ".toList, number s]

def edgeLine (s : Nat) (label : List Char) (target : Nat) : List Char :=
  line ["State ".toList, number s, " - ".toList, label, " -> State ".toList, number target]

/-- A line for each symbol of an alphabet that labels an edge. -/
def labelledLines (a : Alphabet) (edge? : Symbol → Option Nat) (s : Nat) : List (List Char) :=
  a.symbols.filterMap fun sym ↦ (edge? sym).map fun target ↦ edgeLine s sym.text target

end Diagram

open Diagram

namespace Nfa

def stateLines (n : Nfa) (s : Nat) : List (List Char) :=
  labelledLines n.alphabet (n.edge? s) s ++ (n.epsilons s).map (edgeLine s ['ε'])

def text (n : Nfa) : List Char :=
  startLine n.start ++ line ["Final State : ".toList, number n.accept] ++
    ((List.range n.stateCount).flatMap n.stateLines).flatten

end Nfa

namespace Dfa

def text (d : Dfa) : List Char :=
  startLine d.start ++
    line ["Final States : ".toList, [' '].intercalate (d.acceptingStates.map number)] ++
    ((List.range d.stateCount).flatMap fun s ↦ labelledLines d.alphabet (d.edge? s) s).flatten

end Dfa

end BytePatterns
