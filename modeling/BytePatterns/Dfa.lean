import BytePatterns.Row

namespace BytePatterns

structure Dfa.State where
  accepting : Bool
  edges : Row Nat
deriving DecidableEq

/-- A byte takes its own edge if the state has one, else the edge of `any`. -/
structure Dfa where
  start : Nat
  states : Array Dfa.State
  alphabet : Alphabet
deriving DecidableEq

namespace Dfa

variable (d : Dfa)

def stateCount : Nat := d.states.size

def isAccepting (s : Nat) : Bool := d.states[s]?.any State.accepting

def acceptingStates : List Nat := (List.range d.stateCount).filter d.isAccepting

/-- The edge with exactly this label. -/
def edge? (s : Nat) (sym : Symbol) : Option Nat := d.states[s]?.bind (·.edges.get? sym)

def next? (s : Nat) (b : UInt8) : Option Nat := (d.edge? s (.byte b)).or (d.edge? s .any)

/-- Where a symbol leads, when a byte without an edge of its own takes that of `any`. -/
def follow? (s : Nat) : Symbol → Option Nat
  | .byte b => d.next? s b
  | .any => d.edge? s .any

def edgeCount : Nat := d.states.foldl (fun count state ↦ count + state.edges.size) 0

/-- The state reached from `s` on a word, unless an edge is missing on the way. -/
def runFrom? (s : Nat) (word : List UInt8) : Option Nat := word.foldlM d.next? s

def run? (word : List UInt8) : Option Nat := d.runFrom? d.start word

def accepts (word : List UInt8) : Bool := (d.run? word).any d.isAccepting

end Dfa

end BytePatterns
