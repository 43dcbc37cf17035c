import BytePatterns.Dfa
import BytePatterns.Nfa

namespace BytePatterns

/-- An answer about states, each of which must be one of the first `count`. -/
def answerAbout {α : Type} (count : Nat) (states : List Nat) (answer : α) : Option α :=
  if ∀ s ∈ states, s < count then some answer else none

namespace Nfa

variable (n : Nfa)

def closureOf? (seeds : List Nat) : Option StateSet :=
  answerAbout n.stateCount seeds (n.closure seeds)

def stepFrom? (s : Nat) (sym : Symbol) : Option (List Nat) :=
  answerAbout n.stateCount [s] (n.step s sym)

def edgeFrom? (s : Nat) (sym : Symbol) : Option (Option Nat) :=
  answerAbout n.stateCount [s] (n.edge? s sym)

def epsilonsFrom? (s : Nat) : Option (List Nat) := answerAbout n.stateCount [s] (n.epsilons s)

end Nfa

namespace Dfa

variable (d : Dfa)

def edgeFrom? (s : Nat) (sym : Symbol) : Option (Option Nat) :=
  answerAbout d.stateCount [s] (d.edge? s sym)

def nextFrom? (s : Nat) (b : UInt8) : Option (Option Nat) :=
  answerAbout d.stateCount [s] (d.next? s b)

def acceptingAt? (s : Nat) : Option Bool := answerAbout d.stateCount [s] (d.isAccepting s)

end Dfa

end BytePatterns
