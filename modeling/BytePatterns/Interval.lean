namespace BytePatterns

/-- Values ordered by their codes, each with the value next below and next above it. Codes between
those of two neighbours belong to no value. -/
class Coded (α : Type) where
  code : α → Nat
  least : α
  greatest : α
  before : α → α
  after : α → α

instance : Coded UInt8 where
  code := UInt8.toNat
  least := 0
  greatest := 255
  before b := b - 1
  after b := b + 1

/-- Codes 0xD800 up to 0xDFFF do not belong to scalar values. -/
instance : Coded Char where
  code := Char.toNat
  least := Char.ofNat 0
  greatest := Char.ofNat 0x10FFFF
  before c := if c.toNat = 0xE000 then Char.ofNat 0xD7FF else Char.ofNat (c.toNat - 1)
  after c := if c.toNat = 0xD7FF then Char.ofNat 0xE000 else Char.ofNat (c.toNat + 1)

structure Interval (α : Type) where
  first : α
  last : α
deriving DecidableEq

namespace Interval

open Coded

variable {α : Type} [Coded α]

/-- The interval with these ends, whichever of them is the greater. -/
def between (a b : α) : Interval α := if code a ≤ code b then ⟨a, b⟩ else ⟨b, a⟩

def lesser (a b : α) : α := if code a ≤ code b then a else b

def greater (a b : α) : α := if code a ≤ code b then b else a

def precedes (i j : Interval α) : Bool :=
  code i.first < code j.first || (code i.first = code j.first && code i.last ≤ code j.last)

def touches (i j : Interval α) : Bool :=
  max (code i.first) (code j.first) ≤ min (code i.last) (code j.last) + 1

def disjoint (i j : Interval α) : Bool :=
  min (code i.last) (code j.last) < max (code i.first) (code j.first)

def inter? (i j : Interval α) : Option (Interval α) :=
  if i.disjoint j then none else some ⟨greater i.first j.first, lesser i.last j.last⟩

/-- What is left of `i` without `j`: a part below and a part above. -/
def diff (i j : Interval α) : List (Interval α) :=
  if i.disjoint j then [i]
  else
    (if code i.first < code j.first then [⟨i.first, before j.first⟩] else []) ++
      if code j.last < code i.last then [⟨after j.last, i.last⟩] else []

/-- Adds intervals to one that does not begin after any of them. -/
def mergeInto (i : Interval α) : List (Interval α) → List (Interval α)
  | [] => [i]
  | j :: rest =>
    if i.touches j then mergeInto ⟨i.first, greater i.last j.last⟩ rest else i :: mergeInto j rest

def merge : List (Interval α) → List (Interval α)
  | [] => []
  | i :: rest => mergeInto i rest

/-- The intervals of the union of the given ones. -/
def normalize (intervals : List (Interval α)) : List (Interval α) :=
  merge (intervals.mergeSort precedes)

def union (a b : List (Interval α)) : List (Interval α) := normalize (a ++ b)

def inter (a b : List (Interval α)) : List (Interval α) :=
  normalize (a.flatMap fun i ↦ b.filterMap i.inter?)

def difference (a b : List (Interval α)) : List (Interval α) :=
  b.foldl (fun left j ↦ left.flatMap (·.diff j)) a

/-- The intervals between the given ones and at both ends. -/
def gaps : List (Interval α) → List (Interval α)
  | [] => []
  | [i] => if code i.last < code (greatest : α) then [⟨after i.last, greatest⟩] else []
  | i :: j :: rest => between (after i.last) (before j.first) :: gaps (j :: rest)

def complement : List (Interval α) → List (Interval α)
  | [] => [⟨least, greatest⟩]
  | i :: rest =>
    (if code (least : α) < code i.first then [⟨least, before i.first⟩] else []) ++ gaps (i :: rest)

end Interval

namespace Interval

def bytes (i : Interval UInt8) : List UInt8 :=
  (List.range' i.first.toNat (i.last.toNat + 1 - i.first.toNat)).map UInt8.ofNat

/-- The part between two bounds, moved by a distance. -/
def shifted (low high : UInt8) (move : UInt8 → UInt8) (i : Interval UInt8) :
    List (Interval UInt8) :=
  (i.inter? ⟨low, high⟩).toList.map fun part ↦ ⟨move part.first, move part.last⟩

/-- Both cases of every ASCII letter in the set. -/
def foldCase (intervals : List (Interval UInt8)) : List (Interval UInt8) :=
  normalize <| intervals ++
    intervals.flatMap (shifted 97 122 (· - 32)) ++ intervals.flatMap (shifted 65 90 (· + 32))

end Interval

end BytePatterns
