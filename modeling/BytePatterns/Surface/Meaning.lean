import BytePatterns.Regex.Simple
import BytePatterns.Surface.Classes

namespace BytePatterns

namespace Surface

/-- The flags in force at a place. -/
structure Modes where
  caseless : Bool
  multiLine : Bool
  dotAll : Bool
  swapGreed : Bool
  unicode : Bool
  returns : Bool

namespace Modes

/-- Patterns are about bytes, and the dot matches each of them. -/
def default (caseless : Bool) : Modes := ⟨caseless, false, true, false, false, false⟩

def set (m : Modes) : Flag → Bool → Modes
  | .caseless, value => { m with caseless := value }
  | .multiLine, value => { m with multiLine := value }
  | .dotAll, value => { m with dotAll := value }
  | .swapGreed, value => { m with swapGreed := value }
  | .unicode, value => { m with unicode := value }
  | .returns, value => { m with returns := value }
  | .spaced, _ => m

def update (m : Modes) (settings : FlagSettings) : Modes :=
  settings.foldl (fun m (flag, value) ↦ m.set flag value) m

/-- The characters that the dot does not match. -/
def dotExceptions (m : Modes) : List (Nat × Nat) :=
  if m.dotAll then [] else if m.returns then [(10, 10), (13, 13)] else [(10, 10)]

def dot (m : Modes) : Regex :=
  if m.unicode then .ofScalarClass (Interval.complement (charIntervals m.dotExceptions))
  else .ofByteClass (Interval.complement (byteIntervals m.dotExceptions))

def look (m : Modes) : Assertion → Look
  | .lineStart => if m.multiLine then if m.returns then .startLineReturn else .startLine else .start
  | .lineEnd =>
    if m.multiLine then if m.returns then .finishLineReturn else .finishLine else .finish
  | .textStart => .start
  | .textEnd => .finish
  | .boundary => if m.unicode then .wordUnicode else .word
  | .notBoundary => if m.unicode then .wordUnicodeNegate else .wordNegate
  | .wordStart => if m.unicode then .wordStartUnicode else .wordStart
  | .wordEnd => if m.unicode then .wordEndUnicode else .wordEnd
  | .wordStartHalf => if m.unicode then .wordStartHalfUnicode else .wordStartHalf
  | .wordEndHalf => if m.unicode then .wordEndHalfUnicode else .wordEndHalf

/-- A literal character, or the byte it is written as. Without Unicode, an ASCII letter stands for
both of its cases if case does not matter. -/
def literal (m : Modes) (l : Literal) : Except Fault Regex :=
  if m.unicode then
    if m.caseless then .error ⟨.caseUnknown, l.region, none⟩
      else .ok (.literal (Regex.encode l.char))
  else match l.byte? with
    | none => .ok (.literal (Regex.encode l.char))
    | some b =>
      if m.caseless ∧ l.char.isAlpha then .ok (.ofByteClass (Interval.foldCase [⟨b, b⟩]))
      else .ok (.literal [b])

def perl (m : Modes) (region : Region) (negated : Bool) (kind : PerlKind) : Except Fault Regex :=
  if m.unicode then .error ⟨.perlClassUnknown, region, none⟩
  else .ok (.ofByteClass (perlBytes negated kind))

def property (m : Modes) (region : Region) (name : List Char) : Except Fault Regex :=
  .error ⟨if m.unicode then Property.cause name else .scalarNotAllowed, region, none⟩

def bracket (m : Modes) (region : Region) (negated : Bool) (body : ClassBody) :
    Except Fault Regex := do
  if m.unicode then
    let set ← body.addScalars m.caseless .empty
    return .ofScalarClass (← set.finish m.caseless negated region).intervals
  else
    return .ofByteClass (ClassBody.finishBytes m.caseless negated (← body.toBytes m.caseless))

end Modes

mutual

/-- The expression denoted under the flags in force, and the flags in force behind it. -/
def meaning (m : Modes) : Surface → Except Fault (Regex × Modes)
  | empty _ => .ok (.empty, m)
  | flags _ settings => .ok (.empty, m.update settings)
  | literal l => do return (← m.literal l, m)
  | dot _ => .ok (m.dot, m)
  | assertion _ kind => .ok (.look (m.look kind), m)
  | perl region negated kind => do return (← m.perl region negated kind, m)
  | property region name => do return (← m.property region name, m)
  | bracket region negated body => do return (← m.bracket region negated body, m)
  | repetition _ least most greedy sub => do
    let (r, m) ← sub.meaning m
    return (.ofRepetition least most (greedy != m.swapGreed) r, m)
  | group _ (.capture index name) sub => do
    let (r, _) ← sub.meaning m
    return (.capture index name r, m)
  | group _ (.plain settings) sub => do
    let (r, _) ← sub.meaning (m.update settings)
    return (r, m)
  | alternation _ branches => do
    let (branches, m) ← meanings m branches
    return (.ofChoice branches, m)
  | concat _ items => do
    let (items, m) ← meanings m items
    return (.ofSequence items, m)

def meanings (m : Modes) : List Surface → Except Fault (List Regex × Modes)
  | [] => .ok ([], m)
  | item :: rest => do
    let (r, m) ← item.meaning m
    let (others, m) ← meanings m rest
    return (r :: others, m)

end

end Surface

end BytePatterns
