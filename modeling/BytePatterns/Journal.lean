import BytePatterns.Dfa.Minimal
import BytePatterns.Dfa.Subset
import BytePatterns.Nfa.Fragment

namespace BytePatterns

inductive Event where
  | builtNfa (states symbols : Nat)
  | numberedSet (state : Nat) (set : StateSet)
  | builtDfa (nfaStates dfaStates : Nat)
  | refined (pass blocksBefore blocksAfter : Nat)
  | stable (passes blocks : Nat)
  | minimized (statesBefore statesAfter : Nat)
deriving DecidableEq

namespace Event

def setText (set : StateSet) : String :=
  "\x7b" ++ String.intercalate ", " (set.map toString) ++ "\x7d"

def text : Event → String
  | builtNfa states symbols =>
    "DEBUG built NFA with " ++ toString states ++ " states over " ++ toString symbols ++ " symbols"
  | numberedSet state set => "TRACE DFA state " ++ toString state ++ " = NFA states " ++ setText set
  | builtDfa nfaStates dfaStates =>
    "DEBUG determinized " ++ toString nfaStates ++ " NFA states into " ++ toString dfaStates ++
      " DFA states"
  | refined pass blocksBefore blocksAfter =>
    "TRACE refinement pass " ++ toString pass ++ ": " ++ toString blocksBefore ++ " -> " ++
      toString blocksAfter ++ " blocks"
  | stable passes blocks =>
    "DEBUG partition stable after " ++ toString passes ++ " refinement passes with " ++
      toString blocks ++ " blocks"
  | minimized statesBefore statesAfter =>
    "DEBUG minimized DFA from " ++ toString statesBefore ++ " to " ++ toString statesAfter ++
      " states"

end Event

/-- The refinements from one number of blocks to the next. -/
def refinementEvents (pass before : Nat) : List Nat → List Event
  | [] => []
  | after :: rest => .refined pass before after :: refinementEvents (pass + 1) after rest

/-- The sets that get a number: all of them, or those met before the one that is refused. -/
def Nfa.setEvents (n : Nfa) (limit : Option Nat) : List Event :=
  let found := match n.subsetsWithin limit with
    | .ok found => found
    | .error found => found
  found.nodes.toList.zipIdx.map fun (set, i) ↦ .numberedSet i set

/-- The events up to the smallest automaton, and that automaton. The last pass
splits nothing and counts as one. -/
def Dfa.minimizeJournal (d : Dfa) : List Event × Dfa :=
  let refinements := d.refinements
  let counts := refinements.map Partition.blockCount
  let first := d.initialPartition.blockCount
  let least := d.quotient (refinements.getLastD d.initialPartition)
  (refinementEvents 1 first counts ++
    [.stable (counts.length + 1) (counts.getLastD first), .minimized d.stateCount least.stateCount],
    least)

/-- The events up to the first limit that is exceeded, and the number of states in the end. -/
def Tree.journal (nfaLimit dfaLimit : Option Nat) (t : Tree) : List Event × Except TooComplex Nat :=
  match t.toNfaWithin nfaLimit with
  | .error e => ([], .error e)
  | .ok n =>
    let built := .builtNfa n.stateCount n.alphabet.size :: n.setEvents dfaLimit
    match n.toDfaWithin dfaLimit with
    | .error e => (built, .error e)
    | .ok d =>
      let (events, least) := d.minimizeJournal
      (built ++ .builtDfa n.stateCount d.stateCount :: events, .ok least.stateCount)

end BytePatterns
