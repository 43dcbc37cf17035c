namespace BytePatterns

/-- The pieces of a text that newlines end. -/
def segments : List UInt8 → List (List UInt8)
  | [] => []
  | b :: rest =>
    if b = 10 then [] :: segments rest
    else match segments rest with
      | [] => [[b]]
      | segment :: others => (b :: segment) :: others

def withoutReturn (segment : List UInt8) : List UInt8 :=
  if segment.getLast? = some 13 then segment.dropLast else segment

def lines (text : List UInt8) : List (List UInt8) := (segments text).map withoutReturn

/-- The lines that satisfy a condition, each with its number, counted from 1. -/
def searchLines (condition : List UInt8 → Bool) (text : List UInt8) : List (Nat × List UInt8) :=
  ((lines text).zipIdx 1).filterMap fun (line, number) ↦
    if condition line then some (number, line) else none

end BytePatterns
