import BytePatterns.Dfa.Minimal
import BytePatterns.Dfa.Subset
import BytePatterns.Lines
import BytePatterns.Nfa.Fragment
import BytePatterns.Regex.Lowering
import BytePatterns.Scan
import BytePatterns.Surface.Excerpt
import BytePatterns.Surface.Meaning
import BytePatterns.Surface.Nesting
import BytePatterns.Surface.Reading

namespace BytePatterns

/-- The expression that the text of a pattern denotes. The depth of nesting is looked at when the
whole text has been read, and flags are applied after that. -/
def Regex.ofText? (caseless : Bool) (text : String) : Except Surface.Fault Regex := do
  let surface ← Surface.read text.toList
  match surface.tooDeep? 0 with
  | some region => .error ⟨.nestedTooDeep, region, none⟩
  | none =>
    let (r, _) ← surface.meaning (.default caseless)
    return r

/-- Why the text of a pattern is no pattern: it cannot be read, or nothing can be built from it. -/
inductive PatternError where
  | syntactic (text : String) (fault : Surface.Fault)
  | build (e : BuildError)

def PatternError.message : PatternError → String
  | syntactic text fault => String.ofList (Surface.Excerpt.render text.toList fault)
  | build e => e.message

/-- The tree for the text of a pattern. -/
def Tree.ofText? (caseless : Bool) (limit : Option Nat) (text : String) :
    Except PatternError Tree := do
  let r ← (Regex.ofText? caseless text).mapError (.syntactic text)
  (r.toTree limit).mapError .build

structure Pattern where
  text : String
  nfa : Nfa
  dfa : Dfa
  mode : ScanMode

structure PatternOptions where
  caseless : Bool := false
  minimize : Bool := true
  mode : ScanMode := .restart
  nfaLimit : Option Nat := some 10000
  dfaLimit : Option Nat := some 10000

namespace Pattern

/-- The limit on the nondeterministic automaton also holds for each
repetition that is written out. -/
def build (options : PatternOptions) (text : String) : Except PatternError Pattern := do
  let t ← Tree.ofText? options.caseless options.nfaLimit text
  let nfa ← (t.toNfaWithin options.nfaLimit).mapError (.build ∘ .tooComplex)
  let dfa ← (nfa.toDfaWithin options.dfaLimit).mapError (.build ∘ .tooComplex)
  return ⟨text, nfa, if options.minimize then dfa.minimize else dfa, options.mode⟩

def ofText (text : String) : Except PatternError Pattern := build {} text

def isMatch (p : Pattern) (line : List UInt8) : Bool := p.dfa.isMatch p.mode line

/-- The first match from any offset, whatever the mode. -/
def find? (p : Pattern) (line : List UInt8) : Option Span := p.dfa.find? line

def findAll (p : Pattern) (line : List UInt8) : List Span := p.dfa.findAll line

/-- The lines of a text that match. -/
def searchLines (p : Pattern) (text : List UInt8) : List (Nat × List UInt8) :=
  BytePatterns.searchLines p.isMatch text

end Pattern

end BytePatterns
