import BytePatterns.Nfa
import BytePatterns.Size

namespace BytePatterns.Tree

/-- The start state of the fragment whose states are numbered from `base`. -/
def start : Tree → Nat → Nat
  | concat first _, base => first.start base
  | altern first second, base => base + first.stateCount + second.stateCount
  | star sub, base => base + sub.stateCount
  | any, base | byte _, base | empty, base => base

/-- The accept state of the fragment whose states are numbered from `base`. -/
def accept : Tree → Nat → Nat
  | concat first second, base => second.accept (base + first.stateCount)
  | altern first second, base => base + first.stateCount + second.stateCount + 1
  | star sub, base => base + sub.stateCount + 1
  | any, base | byte _, base | empty, base => base + 1

/-- The states of the fragment, where `exits` are the empty moves out of its accept state. -/
def fragment : Tree → (base : Nat) → (exits : List Nat) → List Nfa.State
  | concat first second, base, exits =>
    let middle := base + first.stateCount
    first.fragment base [second.start middle] ++ second.fragment middle exits
  | altern first second, base, exits =>
    let middle := base + first.stateCount
    let top := middle + second.stateCount
    first.fragment base [top + 1] ++ second.fragment middle [top + 1] ++
      [⟨.empty, [first.start base, second.start middle]⟩, ⟨.empty, exits⟩]
  | star sub, base, exits =>
    let top := base + sub.stateCount
    sub.fragment base [sub.start base, top + 1] ++
      [⟨.empty, [sub.start base, top + 1]⟩, ⟨.empty, exits⟩]
  | any, base, exits => [⟨.single .any (base + 1), []⟩, ⟨.empty, exits⟩]
  | byte value, base, exits => [⟨.single (.byte value) (base + 1), []⟩, ⟨.empty, exits⟩]
  | empty, base, exits => [⟨.empty, [base + 1]⟩, ⟨.empty, exits⟩]

/-- The symbols at the leaves, from left to right. -/
def symbols : Tree → List Symbol
  | concat first second | altern first second => first.symbols ++ second.symbols
  | star sub => sub.symbols
  | any => [.any]
  | byte value => [.byte value]
  | empty => []

def toNfa (t : Tree) : Nfa where
  start := t.start 0
  accept := t.accept 0
  states := (t.fragment 0 []).toArray
  alphabet := .ofList t.symbols

def toNfaWithin (limit : Option Nat) (t : Tree) : Except TooComplex Nfa := do
  checkSize limit t.stateCount
  return t.toNfa

end BytePatterns.Tree
