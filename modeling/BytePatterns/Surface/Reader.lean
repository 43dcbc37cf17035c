import BytePatterns.Surface.Fault
import BytePatterns.Unicode.Blank

namespace BytePatterns.Surface

/-- What is left of the text and where it begins. In spaced text, white space and comments are
skipped between the parts of the pattern. -/
structure Cursor where
  rest : List Char
  position : Position
  spaced : Bool

namespace Cursor

abbrev After (c : Cursor) := { d : Cursor // d.rest.length ≤ c.rest.length }

def stay (c : Cursor) : c.After := ⟨c, Nat.le_refl _⟩

def advance (c : Cursor) : c.After :=
  match h : c.rest with
  | [] => c.stay
  | char :: rest => ⟨⟨rest, c.position.past char, c.spaced⟩, by simp [h]⟩

/-- What is left behind white space and comments, a comment being what lies between `#` and the end
of its line; `comment` tells whether the text begins within one. -/
def blankRest (comment : Bool) : List Char → Position → List Char × Position
  | [], p => ([], p)
  | c :: rest, p =>
    if comment then blankRest (c != '\n') rest (p.past c)
    else if Unicode.isBlank c then blankRest false rest (p.past c)
    else if c = '#' then blankRest true rest (p.past c)
    else (c :: rest, p)

theorem length_blankRest_le (comment : Bool) (rest : List Char) (p : Position) :
    (blankRest comment rest p).1.length ≤ rest.length := by
  fun_induction blankRest comment rest p <;> simp_all <;> omega

def skipBlanks (c : Cursor) : c.After :=
  if c.spaced then
    let left := blankRest false c.rest c.position
    ⟨⟨left.1, left.2, true⟩, length_blankRest_le ..⟩
  else c.stay

/-- The next character and, in spaced text, what is skipped behind it. -/
def step (c : Cursor) : c.After :=
  let d := c.advance
  let e := d.1.skipBlanks
  ⟨e.1, Nat.le_trans e.2 d.2⟩

theorem length_advance_lt {c : Cursor} (h : c.rest ≠ []) :
    c.advance.1.rest.length < c.rest.length := by
  unfold advance
  split
  · exact absurd (by assumption) h
  · rename_i hr
    simp [hr]

theorem length_step_lt {c : Cursor} (h : c.rest ≠ []) : c.step.1.rest.length < c.rest.length :=
  Nat.lt_of_le_of_lt c.advance.1.skipBlanks.2 (length_advance_lt h)

def charRegion (c : Cursor) : Region := ⟨c.position, c.advance.1.position⟩

end Cursor

def Reader (α : Type) := (c : Cursor) → Except Fault (α × c.After)

namespace Reader

instance : Monad Reader where
  pure a := fun c ↦ .ok (a, c.stay)
  bind read next := fun c ↦
    match read c with
    | .error fault => .error fault
    | .ok (a, d) =>
      match next a d.1 with
      | .error fault => .error fault
      | .ok (b, e) => .ok (b, ⟨e.1, Nat.le_trans e.2 d.2⟩)

def fail {α : Type} (cause : Cause) (region : Region) : Reader α :=
  fun _ ↦ .error ⟨cause, region, none⟩

def position : Reader Position := fun c ↦ .ok (c.position, c.stay)

def failHere {α : Type} (cause : Cause) : Reader α :=
  fun c ↦ .error ⟨cause, .point c.position, none⟩

def failChar {α : Type} (cause : Cause) : Reader α := fun c ↦ .error ⟨cause, c.charRegion, none⟩

def regionFrom (start : Position) : Reader Region := fun c ↦ .ok (⟨start, c.position⟩, c.stay)

def failFrom {α : Type} (cause : Cause) (start : Position) : Reader α := fun c ↦
  .error ⟨cause, ⟨start, c.position⟩, none⟩

def charRegion : Reader Region := fun c ↦ .ok (c.charRegion, c.stay)

def peek? : Reader (Option Char) := fun c ↦ .ok (c.rest.head?, c.stay)

def advance : Reader Unit := fun c ↦ .ok ((), c.advance)

def skipBlanks : Reader Unit := fun c ↦ .ok ((), c.skipBlanks)

def step : Reader Unit := fun c ↦ .ok ((), c.step)

def tryText (text : List Char) : Reader Bool := fun c ↦
  if text.isPrefixOf c.rest then
    .ok (true, ⟨⟨c.rest.drop text.length, text.foldl .past c.position, c.spaced⟩, by simp⟩)
  else .ok (false, c.stay)

/-- Reads with `move` as long as the next character satisfies the condition. -/
def whileNext (condition : Char → Bool) (move : (c : Cursor) → c.After)
    (shorter : ∀ {c : Cursor}, c.rest ≠ [] → (move c).1.rest.length < c.rest.length)
    (c : Cursor) : List Char × c.After :=
  match h : c.rest with
  | [] => ([], c.stay)
  | char :: _ =>
    if condition char then
      have less := @shorter c (by simp [h])
      let more := whileNext condition move shorter (move c).1
      (char :: more.1, ⟨more.2.1, Nat.le_trans more.2.2 (move c).2⟩)
    else ([], c.stay)
termination_by c.rest.length

def charsWhile (condition : Char → Bool) : Reader (List Char) := fun c ↦
  .ok (whileNext condition Cursor.advance Cursor.length_advance_lt c)

/-- The next characters that satisfy the condition, with what is skipped between and behind them. -/
def stepsWhile (condition : Char → Bool) : Reader (List Char) := fun c ↦
  .ok (whileNext condition Cursor.step Cursor.length_step_lt c)

/-- Sets whether blanks are skipped from here on. -/
def setSpaced (spaced : Bool) : Reader Unit := fun c ↦ .ok ((), ⟨{ c with spaced }, Nat.le_refl _⟩)

def isSpaced : Reader Bool := fun c ↦ .ok (c.spaced, c.stay)

/-- Reads the parts of a text one after the other. What begins with a character is read by `part`,
which gets the character, read already, and its place, and gives the next state or the result; the
end of the text is left to `atEnd`. -/
def parts {σ α : Type} (part : σ → Position → Char → Reader (σ ⊕ α)) (atEnd : σ → Reader α)
    (state : σ) (c : Cursor) : Except Fault (α × c.After) :=
  let d := c.skipBlanks
  match h : d.1.rest with
  | [] =>
    match atEnd state d.1 with
    | .error fault => .error fault
    | .ok (a, e) => .ok (a, ⟨e.1, Nat.le_trans e.2 d.2⟩)
  | char :: _ =>
    let e := d.1.advance
    match part state d.1.position char e.1 with
    | .error fault => .error fault
    | .ok (.inr a, f) => .ok (a, ⟨f.1, Nat.le_trans f.2 (Nat.le_trans e.2 d.2)⟩)
    | .ok (.inl next, f) =>
      have less : f.1.rest.length < c.rest.length :=
        Nat.lt_of_lt_of_le (Nat.lt_of_le_of_lt f.2 (Cursor.length_advance_lt (by simp [h]))) d.2
      match parts part atEnd next f.1 with
      | .error fault => .error fault
      | .ok (a, g) => .ok (a, ⟨g.1, Nat.le_trans g.2 (Nat.le_of_lt less)⟩)
termination_by c.rest.length

end Reader

end BytePatterns.Surface
