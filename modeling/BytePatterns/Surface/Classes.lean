import BytePatterns.Interval
import BytePatterns.Surface
import BytePatterns.Surface.Property

namespace BytePatterns.Surface

/-- ASCII ranges of the named classes, in increasing order. -/
def NamedKind.ranges : NamedKind → List (Nat × Nat)
  | alnum => [(48, 57), (65, 90), (97, 122)]
  | alpha => [(65, 90), (97, 122)]
  | ascii => [(0, 127)]
  | blank => [(9, 9), (32, 32)]
  | cntrl => [(0, 31), (127, 127)]
  | digit => [(48, 57)]
  | graph => [(33, 126)]
  | lower => [(97, 122)]
  | print => [(32, 126)]
  | punct => [(33, 47), (58, 64), (91, 96), (123, 126)]
  | space => [(9, 13), (32, 32)]
  | upper => [(65, 90)]
  | word => [(48, 57), (65, 90), (95, 95), (97, 122)]
  | xdigit => [(48, 57), (65, 70), (97, 102)]

def PerlKind.ranges : PerlKind → List (Nat × Nat)
  | digit => NamedKind.digit.ranges
  | space => NamedKind.space.ranges
  | word => NamedKind.word.ranges

def byteIntervals (ranges : List (Nat × Nat)) : List (Interval UInt8) :=
  ranges.map fun (low, high) ↦ ⟨UInt8.ofNat low, UInt8.ofNat high⟩

def charIntervals (ranges : List (Nat × Nat)) : List (Interval Char) :=
  ranges.map fun (low, high) ↦ ⟨Char.ofNat low, Char.ofNat high⟩

/-- The byte that a literal denotes outside of Unicode mode, if it is one. -/
def Literal.byte? (l : Literal) : Option UInt8 :=
  if l.char.toNat < 128 ∨ l.raw then some (UInt8.ofNat l.char.toNat) else none

def Literal.classByte (l : Literal) : Except Fault UInt8 :=
  match l.byte? with
  | some b => .ok b
  | none => .error ⟨.scalarNotAllowed, l.region, none⟩

def perlBytes (negated : Bool) (kind : PerlKind) : List (Interval UInt8) :=
  let intervals := byteIntervals kind.ranges
  if negated then Interval.complement intervals else intervals

def symmetricDifference {α : Type} [Coded α] (a b : List (Interval α)) : List (Interval α) :=
  Interval.difference (Interval.union a b) (Interval.inter a b)

namespace ClassBody

/-- A class of bytes with case folded if asked for, and then negated if asked for. -/
def finishBytes (caseless negated : Bool) (set : List (Interval UInt8)) : List (Interval UInt8) :=
  let set := if caseless then Interval.foldCase set else set
  if negated then Interval.complement set else set

mutual

def toBytes (caseless : Bool) : ClassBody → Except Fault (List (Interval UInt8))
  | empty _ => .ok []
  | literal l => do
    let b ← l.classByte
    return [⟨b, b⟩]
  | range _ first last => do
    let low ← first.classByte
    let high ← last.classByte
    return [Interval.between low high]
  | named _ negated kind => .ok (finishBytes caseless negated (byteIntervals kind.ranges))
  | perl _ negated kind => .ok (perlBytes negated kind)
  | property region _ => .error ⟨.scalarNotAllowed, region, none⟩
  | bracket _ negated body => do return finishBytes caseless negated (← body.toBytes caseless)
  | union _ items => unionToBytes caseless items
  | operation _ operator lhs rhs => do
    let lhs ← lhs.toBytes caseless
    let rhs ← rhs.toBytes caseless
    let lhs := finishBytes caseless false lhs
    let rhs := finishBytes caseless false rhs
    return match operator with
      | .intersection => Interval.inter lhs rhs
      | .difference => Interval.difference lhs rhs
      | .symmetricDifference => symmetricDifference lhs rhs

def unionToBytes (caseless : Bool) : List ClassBody → Except Fault (List (Interval UInt8))
  | [] => .ok []
  | item :: rest => do
    let set ← item.toBytes caseless
    return Interval.union set (← unionToBytes caseless rest)

end

end ClassBody

/-- A set of scalar values; `folded` marks one that holds every case of its members for a reason
that needs no table of cases. -/
structure ScalarSet where
  intervals : List (Interval Char)
  folded : Bool

namespace ScalarSet

def empty : ScalarSet := ⟨[], true⟩

def union (a b : ScalarSet) : ScalarSet :=
  if b.intervals.isEmpty ∨ a.intervals = b.intervals then a
  else ⟨Interval.union a.intervals b.intervals, a.folded && b.folded⟩

def push (set : ScalarSet) (i : Interval Char) : ScalarSet := set.union ⟨[i], false⟩

def inter (a b : ScalarSet) : ScalarSet :=
  if a.intervals.isEmpty then a
  else if b.intervals.isEmpty then ⟨[], true⟩
  else ⟨Interval.inter a.intervals b.intervals, a.folded && b.folded⟩

def difference (a b : ScalarSet) : ScalarSet :=
  if a.intervals.isEmpty ∨ b.intervals.isEmpty then a
  else ⟨Interval.difference a.intervals b.intervals, a.folded && b.folded⟩

def symmetricDifference (a b : ScalarSet) : ScalarSet := (a.union b).difference (a.inter b)

def complement (set : ScalarSet) : ScalarSet :=
  ⟨Interval.complement set.intervals, set.folded || set.intervals.isEmpty⟩

/-- There is no table of cases, so only a set that is empty or known to be folded can be folded. -/
def foldCase (region : Region) (set : ScalarSet) : Except Fault ScalarSet :=
  if set.folded ∨ set.intervals.isEmpty then .ok { set with folded := true }
  else .error ⟨.caseUnknown, region, none⟩

/-- A class with case folded if asked for, and then negated if asked for. -/
def finish (caseless negated : Bool) (region : Region) (set : ScalarSet) :
    Except Fault ScalarSet := do
  let set ← if caseless then set.foldCase region else .ok set
  return if negated then set.complement else set

end ScalarSet

namespace ClassBody

mutual

/-- Adds the scalar values of a class to a set, in Unicode mode. -/
def addScalars (caseless : Bool) (set : ScalarSet) : ClassBody → Except Fault ScalarSet
  | empty _ => .ok set
  | literal l => .ok (set.push ⟨l.char, l.char⟩)
  | range _ first last => .ok (set.push (Interval.between first.char last.char))
  | named region negated kind => do
    return set.union (← ScalarSet.finish caseless negated region ⟨charIntervals kind.ranges, false⟩)
  | perl region .. => .error ⟨.perlClassUnknown, region, none⟩
  | property region name => .error ⟨Property.cause name, region, none⟩
  | bracket region negated body => do
    let inner ← body.addScalars caseless .empty
    return set.union (← inner.finish caseless negated region)
  | union _ items => addAllScalars caseless set items
  | operation _ operator lhs rhs => do
    let left ← lhs.addScalars caseless .empty
    let right ← rhs.addScalars caseless .empty
    let right ← if caseless then right.foldCase rhs.region else .ok right
    let left ← if caseless then left.foldCase lhs.region else .ok left
    return set.union <| match operator with
      | .intersection => left.inter right
      | .difference => left.difference right
      | .symmetricDifference => left.symmetricDifference right

def addAllScalars (caseless : Bool) (set : ScalarSet) : List ClassBody → Except Fault ScalarSet
  | [] => .ok set
  | item :: rest => do addAllScalars caseless (← item.addScalars caseless set) rest

end

end ClassBody

end BytePatterns.Surface
