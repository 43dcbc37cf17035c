import BytePatterns.Regex
import BytePatterns.Size
import BytePatterns.Tree
import BytePatterns.Unicode.Quoted

namespace BytePatterns

/-- Why a regular expression cannot be built. -/
inductive BuildError where
  | tooComplex (excess : TooComplex)
  | lookAround (kind : Look)
  | emptyClass
  | unsupportedScalar (c : Char)
deriving DecidableEq

namespace BuildError

/-- The code in upper case hexadecimal, with four digits at least. -/
def codePoint (c : Char) : String :=
  let digits := (Nat.toDigits 16 c.toNat).map Char.toUpper
  "U+" ++ String.ofList (List.replicate (4 - digits.length) '0' ++ digits)

def message : BuildError → String
  | tooComplex excess => excess.message
  | lookAround kind => "unsupported feature: look-around assertion " ++ kind.name
  | emptyClass => "unsupported feature: empty character class"
  | unsupportedScalar c =>
    "unsupported symbol " ++ String.ofList (Unicode.quoted c) ++ " (" ++ codePoint c ++
      "): only byte values are allowed"

end BuildError

namespace Interval

/-- The first scalar value of an interval that is not a byte. -/
def firstBeyond? (i : Interval Char) : Option Char :=
  if i.last.toNat ≤ 255 then none
  else some (if i.first.toNat ≤ 255 then Char.ofNat 256 else i.first)

def lowBytes (i : Interval Char) : List UInt8 :=
  bytes ⟨UInt8.ofNat i.first.toNat, UInt8.ofNat i.last.toNat⟩

end Interval

namespace Regex

/-- A class of all bytes is the wildcard. -/
def treeOfBytes (bytes : List UInt8) : Tree :=
  if bytes.length = 256 then .any else .alternAll (bytes.map .byte)

/-- The class of all scalar values is the wildcard; else each of them must be a byte. -/
def treeOfScalars (intervals : List (Interval Char)) : Except BuildError Tree :=
  if intervals = [⟨Char.ofNat 0, Char.ofNat 0x10FFFF⟩] then .ok .any
  else match intervals.findSome? Interval.firstBeyond? with
    | some c => .error (.unsupportedScalar c)
    | none => .ok (.alternAll ((intervals.flatMap Interval.lowBytes).map .byte))

/-- The number of states of the automaton for a repetition of a tree with `states` states. Neither a
product nor the sum goes beyond the greatest size. -/
def repetitionSize (least : Nat) (most : Option Nat) (states : Nat) : Nat :=
  saturated <| saturated (least * states) + match most with
    | none => states + 2
    | some most => saturated ((most - least) * (states + 2))

/-- As many copies of the tree as needed, and what may follow them. -/
def repeated (least : Nat) (most : Option Nat) (t : Tree) : Tree :=
  .concatAll <| List.replicate least t ++ match most with
    | none => [.star t]
    | some most => List.replicate (most - least) t.optional

mutual

/-- Operands come before the repetition they belong to, and from left to right. -/
def toTree (limit : Option Nat) : Regex → Except BuildError Tree
  | empty => .ok .empty
  | literal word => .ok (.literal word)
  | bytes intervals =>
    if intervals.isEmpty then .error .emptyClass
      else .ok (treeOfBytes (intervals.flatMap Interval.bytes))
  | scalars intervals => if intervals.isEmpty then .error .emptyClass else treeOfScalars intervals
  | look kind => .error (.lookAround kind)
  | repetition least most _ sub => do
    let t ← sub.toTree limit
    (checkSize limit (repetitionSize least most t.stateCount)).mapError .tooComplex
    return repeated least most t
  | capture _ _ sub => sub.toTree limit
  | concat items => do return .concatAll (← toTrees limit items)
  | alternation branches => do return .alternAll (← toTrees limit branches)

def toTrees (limit : Option Nat) : List Regex → Except BuildError (List Tree)
  | [] => .ok []
  | r :: rest => do
    let t ← r.toTree limit
    return t :: (← toTrees limit rest)

end

end Regex

end BytePatterns
