import BytePatterns.Dfa

namespace BytePatterns

/-- A walk with one cursor, which starts again behind a byte without an edge and may miss matches,
or an attempt at every offset. -/
inductive ScanMode where
  | restart
  | everyStart
deriving DecidableEq

/-- The bytes from `start` up to, but not including, `stop`. -/
structure Span where
  start : Nat
  stop : Nat
deriving DecidableEq

namespace Dfa

variable (d : Dfa)

/-- Whether the cursor, now in state `s`, meets an accepting state before a byte or after the
last. -/
def restartFrom (s : Nat) : List UInt8 → Bool
  | [] => d.isAccepting s
  | b :: rest => d.isAccepting s || restartFrom ((d.next? s b).getD d.start) rest

def restartMatches (line : List UInt8) : Bool := d.restartFrom d.start line

/-- The length of the shortest accepted beginning of the line. -/
def shortestFrom? (s : Nat) : List UInt8 → Option Nat
  | [] => if d.isAccepting s then some 0 else none
  | b :: rest =>
    if d.isAccepting s then some 0
    else (d.next? s b).bind fun t ↦ (shortestFrom? t rest).map (· + 1)

/-- The first match in the line, whose first byte has the offset `offset`. -/
def leftmost? (offset : Nat) : List UInt8 → Option Span
  | [] => (d.shortestFrom? d.start []).map fun length ↦ ⟨offset, offset + length⟩
  | b :: rest =>
    match d.shortestFrom? d.start (b :: rest) with
    | some length => some ⟨offset, offset + length⟩
    | none => leftmost? (offset + 1) rest

theorem le_start_of_leftmost? {offset : Nat} {line : List UInt8} {m : Span}
    (h : d.leftmost? offset line = some m) : offset ≤ m.start := by
  induction line generalizing offset with
  | nil =>
    obtain ⟨length, -, rfl⟩ := Option.map_eq_some_iff.1 h
    exact Nat.le_refl _
  | cons b rest ih =>
    unfold leftmost? at h
    split at h
    · cases h; exact Nat.le_refl _
    · exact Nat.le_of_succ_le (ih h)

/-- The first match that does not begin before `offset`. -/
def findAt? (line : List UInt8) (offset : Nat) : Option Span :=
  if offset ≤ line.length then d.leftmost? offset (line.drop offset) else none

theorem le_start_of_findAt? {line : List UInt8} {offset : Nat} {m : Span}
    (h : d.findAt? line offset = some m) : offset ≤ m.start ∧ offset ≤ line.length := by
  unfold findAt? at h
  split at h
  · exact ⟨d.le_start_of_leftmost? h, by assumption⟩
  · simp at h

def find? (line : List UInt8) : Option Span := d.findAt? line 0

/-- Each search resumes at the end of the last match, and after an empty match one byte further. -/
def findAllFrom (line : List UInt8) (offset : Nat) : List Span :=
  match h : d.findAt? line offset with
  | none => []
  | some m => m :: findAllFrom line (max m.stop (m.start + 1))
termination_by line.length + 1 - offset
decreasing_by
  have := d.le_start_of_findAt? h
  omega

def findAll (line : List UInt8) : List Span := d.findAllFrom line 0

def isMatch (mode : ScanMode) (line : List UInt8) : Bool :=
  match mode with
  | .restart => d.restartMatches line
  | .everyStart => (d.find? line).isSome

end Dfa

end BytePatterns
