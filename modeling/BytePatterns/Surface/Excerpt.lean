import BytePatterns.Surface.Fault

namespace BytePatterns.Surface

namespace Excerpt

/-- The pieces of a text that newlines end, without the carriage return before a newline. -/
def textLines : List Char → List (List Char)
  | [] => []
  | c :: rest =>
    if c = '\n' then [] :: textLines rest
    else match rest, textLines rest with
      | _, [] => [[c]]
      | '\n' :: _, line :: others => (if c = '\r' then line else c :: line) :: others
      | _, line :: others => (c :: line) :: others

def number (k : Nat) : List Char := Nat.toDigits 10 k

def spaces (count : Nat) : List Char := List.replicate count ' '

/-- How many columns the numbers of the lines take up: none for a pattern of a single line. A
newline at the end of the pattern begins one more line. -/
def numberWidth (text : List Char) : Nat :=
  let count := (textLines text).length + if text.getLast? = some '\n' then 1 else 0
  if count ≤ 1 then 0 else (number count).length

def margin (width : Nat) : Nat := if width = 0 then 4 else width + 2

/-- The carets under regions of one line, listed from left to right, behind `column` columns. -/
def carets (column : Nat) : List Region → List Char
  | [] => []
  | region :: rest =>
    let gap := region.start.column - 1 - column
    let width := max 1 (region.stop.column - region.start.column)
    spaces gap ++ List.replicate width '^' ++ carets (column + gap + width) rest

def precedes (p q : Position) : Bool :=
  p.line < q.line || (p.line = q.line && p.column ≤ q.column)

/-- The regions of a fault in the order of the text. -/
def regions (fault : Fault) : List Region :=
  (fault.region :: fault.earlier.toList).mergeSort fun r s ↦
    if r.start = s.start then precedes r.stop s.stop else precedes r.start s.start

def isOneLine (region : Region) : Bool := region.start.line = region.stop.line

/-- A line of the pattern and, below it, the carets for the regions on it. -/
def line (width : Nat) (regions : List Region) (k : Nat) (content : List Char) : List Char :=
  let digits := number k
  let label :=
    if width = 0 then spaces 4 else spaces (width - digits.length) ++ digits ++ [':', ' ']
  let here := regions.filter fun region ↦ isOneLine region && region.start.line = k
  label ++ content ++ ['\n'] ++
    if here.isEmpty then [] else spaces (margin width) ++ carets 0 here ++ ['\n']

def body (text : List Char) (regions : List Region) : List Char :=
  ((textLines text).zipIdx 1).flatMap fun (content, k) ↦ line (numberWidth text) regions k content

def rule : List Char := List.replicate 79 '~' ++ ['\n']

def ends (region : Region) : List Char :=
  "on line ".toList ++ number region.start.line ++ " (column ".toList ++
    number region.start.column ++
    ") through line ".toList ++ number region.stop.line ++ " (column ".toList ++
    number (region.stop.column - 1) ++ [')', '\n']

def headline : List Char := "regex parse error:\n".toList

def conclusion (fault : Fault) : List Char := "error: ".toList ++ fault.cause.message.toList

/-- A fault in the text of a pattern. -/
def render (text : List Char) (fault : Fault) : List Char :=
  let regions := regions fault
  if text.contains '\n' then
    headline ++ rule ++ body text regions ++ rule ++
      (regions.filter (!isOneLine ·)).flatMap ends ++ conclusion fault
  else headline ++ body text regions ++ conclusion fault

end Excerpt

end BytePatterns.Surface
