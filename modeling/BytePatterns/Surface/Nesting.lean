import BytePatterns.Surface
import BytePatterns.Surface.Fault

namespace BytePatterns

open Surface (Region nestLimit)

namespace Surface.ClassBody

mutual

/-- The first part below `depth` others that is nested too deep. -/
def tooDeep? (depth : Nat) : ClassBody → Option Region
  | bracket region _ body => if depth < nestLimit then body.tooDeep? (depth + 1) else some region
  | union region items => if depth < nestLimit then firstTooDeep? (depth + 1) items else some region
  | operation region _ lhs rhs =>
    if depth < nestLimit then (lhs.tooDeep? (depth + 1)).or (rhs.tooDeep? (depth + 1))
      else some region
  | empty _ | literal _ | range .. | named .. | perl .. | property .. => none

def firstTooDeep? (depth : Nat) : List ClassBody → Option Region
  | [] => none
  | item :: rest => (item.tooDeep? depth).or (firstTooDeep? depth rest)

end

end Surface.ClassBody

namespace Surface

mutual

/-- The first part below `depth` others that is nested too deep. -/
def tooDeep? (depth : Nat) : Surface → Option Region
  | bracket region _ body => if depth < nestLimit then body.tooDeep? (depth + 1) else some region
  | repetition region _ _ _ sub =>
    if depth < nestLimit then sub.tooDeep? (depth + 1) else some region
  | group region _ sub => if depth < nestLimit then sub.tooDeep? (depth + 1) else some region
  | alternation region branches =>
    if depth < nestLimit then firstTooDeep? (depth + 1) branches else some region
  | concat region items =>
    if depth < nestLimit then firstTooDeep? (depth + 1) items else some region
  | empty _ | flags .. | literal _ | dot _ | assertion .. | perl .. | property .. => none

def firstTooDeep? (depth : Nat) : List Surface → Option Region
  | [] => none
  | item :: rest => (item.tooDeep? depth).or (firstTooDeep? depth rest)

end

end Surface

end BytePatterns
