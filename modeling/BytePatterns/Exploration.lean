import BytePatterns.Row
import Std.Data.TreeMap

namespace BytePatterns

/-- The nodes numbered so far, the numbers of the nodes and of the names met so far, and the rows of
the nodes already followed, in the order of the numbers. -/
structure Exploration (α β : Type) [Ord α] [Ord β] where
  nodes : Array α
  numbers : Std.TreeMap α Nat
  names : Std.TreeMap β Nat
  rows : Array (Row Nat)

namespace Exploration

variable {α β : Type} [Ord α] [Ord β]

def empty : Exploration α β := ⟨#[], ∅, ∅, #[]⟩

/-- Notes the number of the node with a given name; a node that has no
number yet gets the next one. -/
def number (node : β → α) (e : Exploration α β) (name : β) : Exploration α β :=
  let ⟨nodes, numbers, names, rows⟩ := e
  if names.contains name then ⟨nodes, numbers, names, rows⟩
  else
    let a := node name
    match numbers[a]? with
    | some k => ⟨nodes, numbers, names.insert name k, rows⟩
    | none =>
      let k := nodes.size
      ⟨nodes.push a, numbers.insert a k, names.insert name k, rows⟩

/-- Numbers the targets of a row and adds the row, in which names are replaced by numbers. -/
def follow (node : β → α) (e : Exploration α β) (row : Row β) : Exploration α β :=
  let ⟨nodes, numbers, names, rows⟩ := row.targets.foldl (number node) e
  ⟨nodes, numbers, names, rows.push (row.map (names.getD · 0))⟩

/-- Follows at most `fuel` rows. -/
def extend (row : α → Row β) (node : β → α) : (fuel : Nat) → Exploration α β → Exploration α β
  | 0, e => e
  | fuel + 1, e =>
    match e.nodes[e.rows.size]? with
    | none => e
    | some a => extend row node fuel (e.follow node (row a))

/-- Whether the node with a given name has no number yet. -/
def isNew (node : β → α) (e : Exploration α β) (name : β) : Bool :=
  !e.names.contains name && !e.numbers.contains (node name)

/-- Numbers the node with a given name. A new node is refused if as many are numbered as allowed. -/
def intern (node : β → α) (limit : Option Nat) (e : Exploration α β) (name : β) :
    Except (Exploration α β) (Exploration α β) :=
  if limit.any (· ≤ e.nodes.size) && e.isNew node name then .error e
  else .ok (e.number node name)

/-- Numbers the targets of a row, one after another, and adds the row. -/
def followWithin (node : β → α) (limit : Option Nat) (e : Exploration α β) (row : Row β) :
    Except (Exploration α β) (Exploration α β) := do
  let ⟨nodes, numbers, names, rows⟩ ← row.targets.foldlM (intern node limit) e
  return ⟨nodes, numbers, names, rows.push (row.map (names.getD · 0))⟩

/-- Follows at most `fuel` rows, and none behind a node that is refused. -/
def extendWithin (row : α → Row β) (node : β → α) (limit : Option Nat) :
    (fuel : Nat) → Exploration α β → Except (Exploration α β) (Exploration α β)
  | 0, e => .ok e
  | fuel + 1, e =>
    match e.nodes[e.rows.size]? with
    | none => .ok e
    | some a => do
      let e ← e.followWithin node limit (row a)
      extendWithin row node limit fuel e

end Exploration

section explore

variable {α β : Type} [Ord α] [Ord β] (row : α → Row β) (node : β → α)

/-- Explores what can be reached from the node with the name `start`, where `count` bounds how many
nodes there are. -/
def explore (count : Nat) (start : β) : Exploration α β :=
  (Exploration.empty.number node start).extend row node count

/-- Explores until a node is refused. What was numbered before that is the error. -/
def exploreWithin (limit : Option Nat) (count : Nat) (start : β) :
    Except (Exploration α β) (Exploration α β) := do
  let e ← Exploration.empty.intern node limit start
  e.extendWithin row node limit count

end explore

end BytePatterns
