import BytePatterns.Surface
import BytePatterns.Surface.Reader

namespace BytePatterns.Surface

inductive Atom where
  | literal (l : Literal)
  | dot (region : Region)
  | assertion (region : Region) (kind : Assertion)
  | perl (region : Region) (negated : Bool) (kind : PerlKind)
  | property (region : Region) (name : List Char)

namespace Atom

def region : Atom → Region
  | literal l => l.region
  | dot region | assertion region _ | perl region .. | property region _ => region

def isHex (c : Char) : Bool :=
  c.isDigit || ('a' ≤ c && c ≤ 'f') || ('A' ≤ c && c ≤ 'F')

def hexValue (c : Char) : Nat :=
  if c.isDigit then c.toNat - 48 else if 'a' ≤ c then c.toNat - 87 else c.toNat - 55

def numberOf (base : Nat) (digits : List Char) : Nat :=
  digits.foldl (fun n c ↦ base * n + hexValue c) 0

/-- The scalar value with a code, unless it is a surrogate or too large. -/
def scalar? (code : Nat) : Option Char :=
  if code < 0xD800 ∨ (0xE000 ≤ code ∧ code < 0x110000) then some (Char.ofNat code) else none

open Reader

/-- The character given by hexadecimal digits, which end at the cursor. -/
def hexLiteral (raw : Bool) (first digitsFrom digitsTo : Position) (digits : List Char) :
    Reader Literal := do
  match scalar? (numberOf 16 digits) with
  | none => fail .hexNotScalar ⟨digitsFrom, digitsTo⟩
  | some char => return ⟨← regionFrom first, char, raw⟩

def fixedHexDigits : (count : Nat) → Reader (List Char)
  | 0 => return []
  | count + 1 => do
    match ← peek? with
    | none => failHere .escapeUnfinished
    | some c =>
      if isHex c then
        step
        return c :: (← fixedHexDigits count)
      else failChar .hexInvalidDigit

/-- The rest of an escape behind the letter of a hexadecimal one: `count` digits, or
any number of them in braces. -/
def hex (first : Position) (letter : Char) : Reader Literal := do
  let count := if letter = 'x' then 2 else if letter = 'u' then 4 else 8
  step
  match ← peek? with
  | none => failHere .escapeUnfinished
  | some '{' =>
    let brace ← position
    let start := brace.past '{'
    step
    let digits ← stepsWhile isHex
    match ← peek? with
    | none => failFrom .escapeUnfinished brace
    | some '}' =>
      let stop ← position
      step
      if digits.isEmpty then failFrom .hexEmpty brace else hexLiteral false first start stop digits
    | some _ => failChar .hexInvalidDigit
  | some _ =>
    let start ← position
    let digits ← fixedHexDigits count
    hexLiteral (letter = 'x') first start (← position) digits

/-- The rest of a property escape: one letter, or a name in braces. -/
def propertyEscape (first : Position) : Reader Atom := do
  step
  match ← peek? with
  | none => failHere .escapeUnfinished
  | some '{' =>
    step
    let name ← stepsWhile (· != '}')
    match ← peek? with
    | none => failHere .escapeUnfinished
    | some _ =>
      advance
      return property (← regionFrom first) name
  | some '\\' => failChar .propertyMalformed
  | some c =>
    step
    return property (← regionFrom first) [c]

def wordAssertion? (name : List Char) : Option Assertion :=
  if name = "start".toList then some .wordStart
  else if name = "end".toList then some .wordEnd
  else if name = "start-half".toList then some .wordStartHalf
  else if name = "end-half".toList then some .wordEndHalf
  else none

def inBoundaryName (c : Char) : Bool := c.isAlpha || c = '-'

/-- What follows an opening brace at `brace` when it names a kind of boundary. -/
def namedBoundary? (first brace : Position) : Reader (Option Assertion) := do
  step
  match ← peek? with
  | none => failFrom .boundaryOrCountUnclosed first
  | some c =>
    if !inBoundaryName c then return none
    let start ← position
    let name ← stepsWhile inBoundaryName
    match ← peek? with
    | some '}' =>
      let region ← regionFrom start
      advance
      match wordAssertion? name with
      | some kind => return some kind
      | none => fail .boundaryUnrecognized region
    | _ => failFrom .boundaryUnclosed brace

/-- Braces that cannot name a kind of boundary are left to a counted repetition. -/
def boundaryInBraces? (first : Position) : Reader (Option Assertion) := fun c ↦
  match namedBoundary? first c.position c with
  | .ok (none, _) => .ok (none, c.stay)
  | answer => answer

def boundary (first : Position) : Reader Atom := do
  match ← peek? with
  | some '{' =>
    let kind ← boundaryInBraces? first
    return assertion (← regionFrom first) (kind.getD .boundary)
  | _ => return assertion (← regionFrom first) .boundary

def perl? (c : Char) : Option (Bool × PerlKind) :=
  match c with
  | 'd' => some (false, .digit)
  | 's' => some (false, .space)
  | 'w' => some (false, .word)
  | 'D' => some (true, .digit)
  | 'S' => some (true, .space)
  | 'W' => some (true, .word)
  | _ => none

def control? (c : Char) : Option Char :=
  match c with
  | 'a' => some '\x07'
  | 'f' => some '\x0c'
  | 't' => some '\t'
  | 'n' => some '\n'
  | 'r' => some '\r'
  | 'v' => some '\x0b'
  | _ => none

def assertion? (c : Char) : Option Assertion :=
  match c with
  | 'A' => some .textStart
  | 'z' => some .textEnd
  | 'B' => some .notBoundary
  | '<' => some .wordStart
  | '>' => some .wordEnd
  | _ => none

/-- ASCII characters other than letters, digits and angle brackets stand for themselves. -/
def isPlainEscape (c : Char) : Bool := c.toNat < 128 && !c.isAlphanum && c != '<' && c != '>'

def escape (first : Position) : Reader Atom := do
  match ← peek? with
  | none => failFrom .escapeUnfinished first
  | some c =>
    if c.isDigit then fail .backreference ⟨first, (← charRegion).stop⟩
    else if c = 'x' ∨ c = 'u' ∨ c = 'U' then return literal (← hex first c)
    else if c = 'p' ∨ c = 'P' then propertyEscape first
    else
      advance
      let region ← regionFrom first
      if let some (negated, kind) := perl? c then return perl region negated kind
      if isPlainEscape c then return literal ⟨region, c, false⟩
      if let some char := control? c then return literal ⟨region, char, false⟩
      if let some kind := assertion? c then return assertion region kind
      if c = 'b' then boundary first else fail .escapeUnrecognized region

/-- A character of a class, or an escape in it, that begins with `c` at `first`. -/
def inClass (first : Position) (c : Char) : Reader Atom := do
  if c = '\\' then escape first else return literal ⟨← regionFrom first, c, false⟩

/-- An escape, the dot, an anchor, or a character that stands for itself. -/
def outsideClass (first : Position) (c : Char) : Reader Atom := do
  match c with
  | '\\' => escape first
  | '.' => return dot (← regionFrom first)
  | '^' => return assertion (← regionFrom first) .lineStart
  | '$' => return assertion (← regionFrom first) .lineEnd
  | c => return literal ⟨← regionFrom first, c, false⟩

end Atom

end BytePatterns.Surface
