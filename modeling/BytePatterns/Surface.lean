import BytePatterns.Surface.Region

namespace BytePatterns

namespace Surface

/-- A character that stands for itself or is written as an escape; `raw` marks one written as `\x`
with exactly two hexadecimal digits. -/
structure Literal where
  region : Region
  char : Char
  raw : Bool
deriving DecidableEq

inductive PerlKind where
  | digit
  | space
  | word
deriving DecidableEq

inductive NamedKind where
  | alnum
  | alpha
  | ascii
  | blank
  | cntrl
  | digit
  | graph
  | lower
  | print
  | punct
  | space
  | upper
  | word
  | xdigit
deriving DecidableEq

inductive SetOperator where
  | intersection
  | difference
  | symmetricDifference
deriving DecidableEq

/-- What stands between the brackets of a class. -/
inductive ClassBody where
  | empty (region : Region)
  | literal (l : Literal)
  | range (region : Region) (first last : Literal)
  | named (region : Region) (negated : Bool) (kind : NamedKind)
  | perl (region : Region) (negated : Bool) (kind : PerlKind)
  | property (region : Region) (name : List Char)
  | bracket (region : Region) (negated : Bool) (body : ClassBody)
  | union (region : Region) (items : List ClassBody)
  | operation (region : Region) (operator : SetOperator) (lhs rhs : ClassBody)

def ClassBody.region : ClassBody → Region
  | empty region | range region .. | named region .. | perl region .. | property region _
  | bracket region .. | union region _ | operation region .. => region
  | literal l => l.region

inductive Assertion where
  | lineStart
  | lineEnd
  | textStart
  | textEnd
  | boundary
  | notBoundary
  | wordStart
  | wordEnd
  | wordStartHalf
  | wordEndHalf
deriving DecidableEq

inductive Flag where
  | caseless
  | multiLine
  | dotAll
  | swapGreed
  | unicode
  | returns
  | spaced
deriving DecidableEq

/-- Flags with their new settings, in the order of the text. -/
abbrev FlagSettings := List (Flag × Bool)

inductive GroupKind where
  | capture (index : Nat) (name : Option (List Char))
  | plain (settings : FlagSettings)

end Surface

open Surface

inductive Surface where
  | empty (region : Region)
  | flags (region : Region) (settings : FlagSettings)
  | literal (l : Literal)
  | dot (region : Region)
  | assertion (region : Region) (kind : Assertion)
  | perl (region : Region) (negated : Bool) (kind : PerlKind)
  | property (region : Region) (name : List Char)
  | bracket (region : Region) (negated : Bool) (body : ClassBody)
  | repetition (region : Region) (least : Nat) (most : Option Nat) (greedy : Bool) (sub : Surface)
  | group (region : Region) (kind : GroupKind) (sub : Surface)
  | alternation (region : Region) (branches : List Surface)
  | concat (region : Region) (items : List Surface)

def Surface.region : Surface → Region
  | empty region | flags region _ | dot region | assertion region _ | perl region ..
  | property region _
  | bracket region .. | repetition region .. | group region .. | alternation region _
  | concat region _ => region
  | literal l => l.region

end BytePatterns
