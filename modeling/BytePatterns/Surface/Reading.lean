import BytePatterns.Surface.Bracket
import BytePatterns.Surface.Group
import BytePatterns.Surface.Repetition

namespace BytePatterns.Surface

/-- The branches read so far in a group or in the whole pattern: where the first one began, those
that are complete, where the last one began, and its items. -/
structure Level where
  start : Position
  branches : Array Surface
  branchStart : Position
  items : Array Surface

namespace Level

def begin (p : Position) : Level := ⟨p, #[], p, #[]⟩

def add (l : Level) (item : Surface) : Level := { l with items := l.items.push item }

def branch (l : Level) (p : Position) : Surface :=
  match l.items.toList with
  | [] => .empty ⟨l.branchStart, p⟩
  | [item] => item
  | items => .concat ⟨l.branchStart, p⟩ items

def bar (l : Level) (p q : Position) : Level := ⟨l.start, l.branches.push (l.branch p), q, #[]⟩

def body (l : Level) (p : Position) : Surface :=
  if l.branches.isEmpty then l.branch p
    else .alternation ⟨l.start, p⟩ (l.branches.push (l.branch p)).toList

end Level

/-- A group that has not been closed yet, with what was read around it. -/
structure OpenGroup where
  opening : Region
  kind : GroupKind
  spaced : Bool
  around : Level

/-- What has been read: the innermost level, the open groups around it from the innermost on, the
number of captures and the names of groups. -/
structure Progress where
  level : Level
  groups : List OpenGroup
  captures : Nat
  names : List (List Char × Region)

namespace Progress

open Reader

def begin : Progress := ⟨.begin .first, [], 0, []⟩

def add (g : Progress) (item : Surface) : Progress := { g with level := g.level.add item }

/-- Goes on within a group. -/
def enter (g : Progress) (first : Position) (kind : GroupKind) (spaced : Option Bool) :
    Reader Progress := do
  let inner : OpenGroup := ⟨⟨first, first.past '('⟩, kind, ← isSpaced, g.level⟩
  if let some spaced := spaced then setSpaced spaced
  return { g with level := .begin (← position), groups := inner :: g.groups }

def openGroup (g : Progress) (first : Position) : Reader Progress := do
  match ← opening g.names first with
  | .numbered =>
    let g := { g with captures := g.captures + 1 }
    g.enter first (.capture g.captures none) none
  | .named name region =>
    let g := { g with captures := g.captures + 1, names := g.names ++ [(name, region)] }
    g.enter first (.capture g.captures (some name)) none
  | .flagged settings => g.enter first (.plain settings) (settings.lookup .spaced)
  | .settings settings =>
    if let some spaced := settings.lookup .spaced then setSpaced spaced
    return g.add (.flags (← regionFrom first) settings)

def closeGroup (g : Progress) (first : Position) : Reader Progress := do
  let stop ← position
  match g.groups with
  | [] => fail .groupUnopened ⟨first, stop⟩
  | inner :: outer =>
    setSpaced inner.spaced
    let item := Surface.group ⟨inner.opening.start, stop⟩ inner.kind (g.level.body first)
    return { g with level := inner.around.add item, groups := outer }

/-- Repeats the last item; there is none to repeat behind a setting of flags. -/
def repeatLast (g : Progress) (first : Position) (c : Char) : Reader Progress := do
  match g.level.items.back? with
  | none | some (.empty _) | some (.flags ..) => fail .repetitionWithoutOperand (.point first)
  | some item =>
    let count ← operator first c
    let region : Region := ⟨item.region.start, ← position⟩
    let item := Surface.repetition region count.least count.most count.greedy item
    return { g with level := { g.level with items := g.level.items.pop.push item } }

def ofAtom : Atom → Surface
  | .literal l => .literal l
  | .dot region => .dot region
  | .assertion region kind => .assertion region kind
  | .perl region negated kind => .perl region negated kind
  | .property region name => .property region name

def ofClass : ClassBody → Surface
  | .bracket region negated body => .bracket region negated body
  | body => .bracket body.region false body

def part (g : Progress) (first : Position) (c : Char) : Reader (Progress ⊕ Surface) := do
  match c with
  | '(' => return .inl (← g.openGroup first)
  | ')' => return .inl (← g.closeGroup first)
  | '|' => return .inl { g with level := g.level.bar first (← position) }
  | '[' => return .inl (g.add (ofClass (← ClassBody.read first)))
  | '?' | '*' | '+' | '{' => return .inl (← g.repeatLast first c)
  | c => return .inl (g.add (ofAtom (← Atom.outsideClass first c)))

/-- At the end of the pattern no group may be open. -/
def finish (g : Progress) : Reader Surface := do
  match g.groups with
  | [] => return g.level.body (← position)
  | inner :: _ => fail .groupUnclosed inner.opening

end Progress

/-- The parts of a pattern, before the depth of nesting is looked at. -/
def read (text : List Char) : Except Fault Surface :=
  (Reader.parts Progress.part Progress.finish .begin ⟨text, .first, false⟩).map (·.1)

end BytePatterns.Surface
