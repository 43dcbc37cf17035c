namespace BytePatterns.Surface

structure Position where
  line : Nat
  column : Nat
deriving DecidableEq

namespace Position

def first : Position := ⟨1, 1⟩

/-- The place behind a character. -/
def past (p : Position) (c : Char) : Position :=
  if c = '\n' then ⟨p.line + 1, 1⟩ else ⟨p.line, p.column + 1⟩

end Position

/-- The characters from `start` up to, but not including, `stop`. -/
structure Region where
  start : Position
  stop : Position
deriving DecidableEq

namespace Region

def point (p : Position) : Region := ⟨p, p⟩

end Region

end BytePatterns.Surface
