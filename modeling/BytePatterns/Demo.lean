import BytePatterns.Diagram
import BytePatterns.Pattern

namespace BytePatterns.Demo

def defaultPatterns : List String :=
  ["a", "ab", "a|b", "a*b", "b|a|c*", "(a|b)*c", "(a|b)*c(d|e)", "a.", "(ab|.c)", "colou?r",
    "x\x7b2,3\x7d"]

def sizeLimit : Option Nat := some 10000

def paragraph (parts : List (List Char)) : List Char := parts.flatten ++ ['\n']

def automaton (title : String) (states : Nat) (text : List Char) : List Char :=
  paragraph [title.toList, " (".toList, Nat.toDigits 10 states, " states):\n".toList, text]

def failure (what : String) (message : String) : List Char :=
  paragraph [what.toList, ": ".toList, message.toList]

def ofDfa (d : Dfa) : List Char :=
  let least := d.minimize
  automaton "DFA" d.stateCount d.text ++ automaton "Minimized DFA" least.stateCount least.text

def ofNfa (n : Nfa) : List Char :=
  automaton "\nNFA" n.stateCount n.text ++
    match n.toDfaWithin sizeLimit with
    | .error e => failure "Failed to determinize" e.message
    | .ok d => ofDfa d

def ofTree (t : Tree) : List Char :=
  paragraph ["Tree: ".toList, t.text] ++
    match t.toNfaWithin sizeLimit with
    | .error e => failure "Failed to build NFA" e.message
    | .ok n => ofNfa n

def ofPattern (text : String) : List Char :=
  paragraph ["\n=== Pattern: '".toList, text.toList, "' ===".toList] ++
    match Tree.ofText? false sizeLimit text with
    | .error (.syntactic text fault) =>
      failure "Failed to parse pattern" (PatternError.syntactic text fault).message
    | .error (.build e) => failure "Failed to compile" e.message
    | .ok t => ofTree t

def header : List Char :=
  "Regular expression automata - construction demo\n".toList ++ List.replicate 48 '=' ++ ['\n']

/-- Without patterns, the default ones are reported on. -/
def report (patterns : List String) : String :=
  String.ofList <| header ++
    (if patterns.isEmpty then defaultPatterns else patterns).flatMap ofPattern

end BytePatterns.Demo
