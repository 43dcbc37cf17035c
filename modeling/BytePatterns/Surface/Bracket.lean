import BytePatterns.Surface.Atom

namespace BytePatterns.Surface

/-- Items side by side, with the region they take up; without items it is the place for them. -/
structure ClassUnion where
  region : Region
  items : Array ClassBody

namespace ClassUnion

def emptyAt (p : Position) : ClassUnion := ⟨.point p, #[]⟩

def add (u : ClassUnion) (item : ClassBody) : ClassUnion where
  region := ⟨if u.items.isEmpty then item.region.start else u.region.start, item.region.stop⟩
  items := u.items.push item

def body (u : ClassUnion) : ClassBody :=
  match u.items.toList with
  | [] => .empty u.region
  | [item] => item
  | items => .union u.region items

end ClassUnion

/-- A class that has not been closed yet: what was taken as its opening, the operator read last with
what is on its left, and the items behind it. -/
structure OpenClass where
  opening : Region
  negated : Bool
  left : Option (SetOperator × ClassBody)
  items : ClassUnion

namespace OpenClass

def body (o : OpenClass) : ClassBody :=
  let right := o.items.body
  match o.left with
  | none => right
  | some (operator, lhs) => .operation ⟨lhs.region.start, right.region.stop⟩ operator lhs right

def add (o : OpenClass) (item : ClassBody) : OpenClass := { o with items := o.items.add item }

def operate (o : OpenClass) (operator : SetOperator) (p : Position) : OpenClass :=
  { o with left := some (operator, o.body), items := .emptyAt p }

end OpenClass

/-- The classes that are open, from the innermost to the outermost. -/
structure OpenClasses where
  inner : OpenClass
  outer : List OpenClass

namespace OpenClasses

def add (o : OpenClasses) (item : ClassBody) : OpenClasses := { o with inner := o.inner.add item }

end OpenClasses

namespace ClassBody

open Reader

def hyphens (first : Position) (u : ClassUnion) : Reader ClassUnion := fun c ↦
  match h : c.rest with
  | '-' :: _ =>
    let d := c.step
    have less : d.1.rest.length < c.rest.length := Cursor.length_step_lt (by simp [h])
    let more := u.add (.literal ⟨c.charRegion, '-', false⟩)
    if d.1.rest.isEmpty then .error ⟨.classUnclosed, .point first, none⟩
    else match hyphens first more d.1 with
      | .error fault => .error fault
      | .ok (u, e) => .ok (u, ⟨e.1, Nat.le_trans e.2 d.2⟩)
  | _ => .ok (u, c.stay)
termination_by c => c.rest.length

/-- The next character, where a class must not end. -/
def nextInOpening (first : Position) : Reader Char := do
  match ← peek? with
  | none => failFrom .classUnclosed first
  | some c => return c

/-- The opening of a class behind the bracket at `first`: a caret for negation, any number of
hyphens or else a closing bracket, which stand for themselves. -/
def opening (first : Position) : Reader OpenClass := do
  skipBlanks
  let negated := (← nextInOpening first) = '^'
  if negated then
    step
    let _ ← nextInOpening first
  let items ← hyphens first (.emptyAt (← position))
  let mut items := items
  if items.items.isEmpty && (← nextInOpening first) = ']' then
    items := items.add (.literal ⟨← charRegion, ']', false⟩)
    step
    let _ ← nextInOpening first
  return ⟨← regionFrom first, negated, none, items⟩

def named? (name : List Char) : Option NamedKind :=
  [("alnum", .alnum), ("alpha", .alpha), ("ascii", .ascii), ("blank", .blank), ("cntrl", .cntrl),
    ("digit", .digit), ("graph", .graph), ("lower", .lower), ("print", .print), ("punct", .punct),
    ("space", .space), ("upper", .upper), ("word", .word), ("xdigit", NamedKind.xdigit)].lookup
    (String.ofList name)

/-- A named class behind the bracket at `first`. What does not name a class is left unread. -/
def namedClass? (first : Position) : Reader (Option ClassBody) := fun c ↦
  match read c with
  | .ok (some body, d) => .ok (some body, d)
  | _ => .ok (none, c.stay)
where
  read : Reader (Option ClassBody) := do
    if !(← tryText [':']) then return none
    let negated ← tryText ['^']
    let name ← charsWhile (· != ':')
    if !(← tryText [':', ']']) then return none
    let region ← regionFrom first
    return (named? name).map (named region negated)

def ofAtom : Atom → Reader ClassBody
  | .literal l => return literal l
  | .perl region negated kind => return perl region negated kind
  | .property region name => return property region name
  | .dot region | .assertion region _ => fail .assertionInClass region

def rangeEnd : Atom → Reader Literal
  | .literal l => return l
  | a => fail .rangeEndNotLiteral a.region

/-- The character behind the next one when blanks are skipped, and the sign of a comment with
them. -/
def peekBehind? : Reader (Option Char) := fun c ↦
  let behind := c.rest.drop 1
  let visible := behind.dropWhile Unicode.isBlank
  let found := match visible with
    | '#' :: rest => rest.dropWhile Unicode.isBlank
    | _ => visible
  .ok (if c.spaced then found.head?.or behind.head? else behind.head?, c.stay)

/-- The character or escape that begins with `c` at `first`, or the range that begins with it;
`opened` is the opening of the class. -/
def single (opened : Region) (first : Position) (c : Char) : Reader ClassBody := do
  let low ← Atom.inClass first c
  skipBlanks
  match ← peek? with
  | none => fail .classUnclosed opened
  | some '-' =>
    let behind ← peekBehind?
    if behind = some ']' ∨ behind = some '-' then ofAtom low
    else
      step
      let start ← position
      match ← peek? with
      | none => fail .classUnclosed opened
      | some c =>
        advance
        let high ← Atom.inClass start c
        let region := ⟨first, high.region.stop⟩
        let low ← rangeEnd low
        let high ← rangeEnd high
        if low.char ≤ high.char then return range region low high else fail .rangeReversed region
  | some _ => ofAtom low

def part (o : OpenClasses) (first : Position) (c : Char) : Reader (OpenClasses ⊕ ClassBody) := do
  match c with
  | '[' =>
    match ← namedClass? first with
    | some body => return .inl (o.add body)
    | none => return .inl ⟨← opening first, o.inner :: o.outer⟩
  | ']' =>
    let region : Region := ⟨o.inner.opening.start, ← position⟩
    let body := bracket region o.inner.negated o.inner.body
    match o.outer with
    | [] => return .inr body
    | inner :: outer => return .inl ⟨inner.add body, outer⟩
  | c =>
    let operator? := match c with
      | '&' => some SetOperator.intersection
      | '-' => some .difference
      | '~' => some .symmetricDifference
      | _ => none
    if let some operator := operator? then
      if ← tryText [c] then
        return .inl { o with inner := o.inner.operate operator (← position) }
    return .inl (o.add (← single o.inner.opening first c))

def read (first : Position) : Reader ClassBody := do
  parts part (fun o ↦ fail .classUnclosed o.inner.opening) ⟨← opening first, []⟩

end ClassBody

end BytePatterns.Surface
