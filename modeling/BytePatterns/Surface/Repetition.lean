import BytePatterns.Surface.Atom

namespace BytePatterns.Surface

open Reader

/-- How often an operand is repeated, and whether as often as possible. -/
structure Count where
  least : Nat
  most : Option Nat
  greedy : Bool

/-- A decimal number of at most 32 bits with blanks around it, or what is wrong with it. -/
def decimal : Reader (Except Fault Nat) := do
  let _ ← charsWhile Unicode.isBlank
  let start ← position
  let digits ← stepsWhile Char.isDigit
  let region ← regionFrom start
  let _ ← stepsWhile Unicode.isBlank
  if digits.isEmpty then return .error ⟨.countMissing, region, none⟩
  let value := Atom.numberOf 10 digits
  return if value < 4294967296 then .ok value else .error ⟨.countTooLarge, region, none⟩

def required (answer : Except Fault Nat) : Reader Nat := fun c ↦ answer.map (·, c.stay)

/-- The next character, where a count that begins at `first` must not end. -/
def nextInCount (first : Position) : Reader Char := do
  match ← peek? with
  | none => failFrom .countUnclosed first
  | some c => return c

/-- The bounds in braces, up to the closing brace. -/
def bounds (first : Position) : Reader (Nat × Option Nat) := do
  skipBlanks
  let _ ← nextInCount first
  let low ← decimal
  if (← nextInCount first) = ',' then
    step
    if (← nextInCount first) = '}' then return (← required low, none)
    else
      let low ← required low
      let high ← required (← decimal)
      return (low, some high)
  else
    let low ← required low
    return (low, some low)

/-- The rest of a count behind the brace at `first`. -/
def count (first : Position) : Reader Count := do
  let (least, most) ← bounds first
  if (← nextInCount first) != '}' then failFrom .countUnclosed first
  step
  let greedy := !(← tryText ['?'])
  if most.any (· < least) then failFrom .countReversed first
  return ⟨least, most, greedy⟩

/-- The rest of an operator that begins with `c` at `first`. -/
def operator (first : Position) (c : Char) : Reader Count := do
  match c with
  | '{' => count first
  | '?' => return ⟨0, some 1, !(← tryText ['?'])⟩
  | '*' => return ⟨0, none, !(← tryText ['?'])⟩
  | _ => return ⟨1, none, !(← tryText ['?'])⟩

end BytePatterns.Surface
