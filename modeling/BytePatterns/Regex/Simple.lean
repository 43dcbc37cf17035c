import BytePatterns.Regex

namespace BytePatterns.Regex

def fail : Regex := bytes []

mutual

def isEmptyOnly : Regex → Bool
  | empty | look _ => true
  | literal _ | bytes _ | scalars _ => false
  | repetition _ most _ sub => most.isSome && sub.isEmptyOnly
  | capture _ _ sub => sub.isEmptyOnly
  | concat items => allEmptyOnly items
  | alternation branches => allEmptyOnly branches

def allEmptyOnly : List Regex → Bool
  | [] => true
  | r :: rest => r.isEmptyOnly && allEmptyOnly rest

end

mutual

def same : Regex → Regex → Bool
  | empty, empty => true
  | literal a, literal b => a = b
  | bytes a, bytes b => a = b
  | scalars a, scalars b => a = b
  | look a, look b => a = b
  | repetition least most greedy sub, repetition least' most' greedy' sub' =>
    least = least' && most = most' && greedy = greedy' && same sub sub'
  | capture index name sub, capture index' name' sub' =>
    index = index' && name = name' && same sub sub'
  | concat items, concat items' => allSame items items'
  | alternation branches, alternation branches' => allSame branches branches'
  | _, _ => false

def allSame : List Regex → List Regex → Bool
  | [], [] => true
  | r :: rest, r' :: rest' => same r r' && allSame rest rest'
  | _, _ => false

end

mutual

def weight : Regex → Nat
  | empty | literal _ | bytes _ | scalars _ | look _ => 1
  | repetition _ _ _ sub | capture _ _ sub => sub.weight + 1
  | concat items | alternation items => totalWeight items + 1

def totalWeight : List Regex → Nat
  | [] => 0
  | r :: rest => r.weight + totalWeight rest

end

def ofBytes (word : List UInt8) : Regex := if word.isEmpty then empty else literal word

def encode (c : Char) : List UInt8 := (String.singleton c).toUTF8.toList

/-- A class with one element is a literal. -/
def ofByteClass (intervals : List (Interval UInt8)) : Regex :=
  match intervals with
  | [i] => if i.first = i.last then literal [i.first] else bytes intervals
  | _ => bytes intervals

/-- A class with one element is a literal, and an empty one is the empty class of bytes. -/
def ofScalarClass (intervals : List (Interval Char)) : Regex :=
  match intervals with
  | [] => fail
  | [i] => if i.first = i.last then literal (encode i.first) else scalars intervals
  | _ => scalars intervals

/-- An operand whose matches are all empty need not be repeated more than once. -/
def ofRepetition (least : Nat) (most : Option Nat) (greedy : Bool) (sub : Regex) : Regex :=
  let (least, most) :=
    if sub.isEmptyOnly then (min least 1, some (most.elim 1 (min · 1))) else (least, most)
  if least = 0 ∧ most = some 0 then empty
  else if least = 1 ∧ most = some 1 then sub
  else repetition least most greedy sub

/-- The items of a sequence within a sequence. -/
def sequenceItems : Regex → List Regex
  | concat items => items
  | empty => []
  | r => [r]

def joinLiterals : List Regex → List Regex
  | [] => []
  | literal word :: rest =>
    match joinLiterals rest with
    | literal more :: others => literal (word ++ more) :: others
    | others => literal word :: others
  | r :: rest => r :: joinLiterals rest

def ofSequence (items : List Regex) : Regex :=
  match joinLiterals (items.flatMap sequenceItems) with
  | [] => empty
  | [r] => r
  | items => concat items

/-- The branches of a choice within a choice. -/
def choiceBranches : Regex → List Regex
  | alternation branches => branches
  | r => [r]

def char? : Regex → Option Char
  | literal word => do
    let text ← String.fromUTF8? ⟨word.toArray⟩
    match text.toList with
    | [c] => some c
    | _ => none
  | _ => none

def byte? : Regex → Option UInt8
  | literal [b] => some b
  | _ => none

def codeInterval (low high : Nat) : Interval Char := ⟨Char.ofNat low, Char.ofNat high⟩

/-- A class as intervals of scalar values, if it is one of scalar values or of ASCII bytes. -/
def scalarClass? : Regex → Option (List (Interval Char))
  | scalars intervals => some intervals
  | bytes intervals =>
    if intervals.all (·.last.toNat ≤ 127) then
      some (intervals.map fun i ↦ codeInterval i.first.toNat i.last.toNat)
    else none
  | _ => none

/-- A class as intervals of bytes, if it is one of bytes or of ASCII characters. -/
def byteClass? : Regex → Option (List (Interval UInt8))
  | bytes intervals => some intervals
  | scalars intervals =>
    if intervals.all (·.last.toNat ≤ 127) then
      some (intervals.map fun i ↦ ⟨UInt8.ofNat i.first.toNat, UInt8.ofNat i.last.toNat⟩)
    else none
  | _ => none

/-- The class that a choice amounts to: of characters or bytes if each branch is one of them, else
of scalar values or bytes if each branch is such a class. -/
def classOfChoice? (branches : List Regex) : Option Regex :=
  ((branches.mapM char?).map fun chars ↦
    ofScalarClass (Interval.normalize (chars.map fun c ↦ ⟨c, c⟩)))
  <|> ((branches.mapM byte?).map fun word ↦
    ofByteClass (Interval.normalize (word.map fun b ↦ ⟨b, b⟩)))
  <|> ((branches.mapM scalarClass?).map fun classes ↦
    ofScalarClass (Interval.normalize classes.flatten))
  <|> ((branches.mapM byteClass?).map fun classes ↦
    ofByteClass (Interval.normalize classes.flatten))

def concatItems? : Regex → Option (List Regex)
  | concat items => some items
  | _ => none

/-- What two sequences both begin with. -/
def commonPart : List Regex → List Regex → List Regex
  | r :: rest, r' :: rest' => if same r r' then r :: commonPart rest rest' else []
  | _, _ => []

/-- A choice, where `fuel` bounds how often what the branches begin with is written once. -/
def ofChoiceWithin : (fuel : Nat) → List Regex → Regex
  | fuel, branches =>
    match branches.flatMap choiceBranches with
    | [] => fail
    | [r] => r
    | branches =>
      match classOfChoice? branches, fuel, branches.mapM concatItems? with
      | some r, _, _ => r
      | none, fuel + 1, some (first :: others) =>
        let shared := others.foldl commonPart first
        if shared.isEmpty then alternation branches
        else
          let rests := (first :: others).map fun items ↦ ofSequence (items.drop shared.length)
          ofSequence (shared ++ [ofChoiceWithin fuel rests])
      | none, _, _ => alternation branches

/-- Each time the branches lose what they begin with, so their weight bounds how often this
happens. -/
def ofChoice (branches : List Regex) : Regex := ofChoiceWithin (totalWeight branches) branches

end BytePatterns.Regex
