import BytePatterns.Dfa.Partition
import BytePatterns.Exploration

namespace BytePatterns

namespace Partition

variable {size : Nat}

/-- The partitions that follow `p` while each refinement has more blocks than the one before. -/
def successors (refine : Partition size → Partition size) (p : Partition size) :
    List (Partition size) :=
  let q := refine p
  if p.blockCount < q.blockCount then q :: successors refine q else []
termination_by size - p.blockCount
decreasing_by
  have more : p.blockCount < (refine p).blockCount := by assumption
  have := (refine p).blockCount_le
  omega

end Partition

/-- Leaves out the bytes that lead where `any` leads. -/
def Row.withoutRedundant (r : Row Nat) : Row Nat :=
  r.filter fun s target ↦ s = .any || r.get? .any != some target

namespace Dfa

variable (d : Dfa)

/-- Where the symbols of the alphabet lead. -/
def column (s : Nat) : List (Option Nat) := d.alphabet.symbols.map (d.follow? s)

def columns : Array (List (Option Nat)) := (Array.range d.stateCount).map d.column

/-- The blocks that the symbols of the alphabet lead to. -/
def signature (blockOf : Array Nat) (column : List (Option Nat)) : List (Option Nat) :=
  column.map (·.map fun t ↦ blockOf[t]?.getD 0)

/-- Splits the blocks of states that do not lead to the same blocks. -/
def refineBy {size : Nat} (columns : Array (List (Option Nat))) (p : Partition size) :
    Partition size :=
  let blockOf := p.blockOf
  let signatures := columns.map (signature blockOf)
  p.splitBy fun s ↦ signatures.getD s []

def initialPartition : Partition d.stateCount := .bipartition d.stateCount d.isAccepting

/-- The partitions after the first, each of which splits some block of the one before. -/
def refinements : List (Partition d.stateCount) :=
  let columns := d.columns
  d.initialPartition.successors (refineBy columns)

def stablePartition : Partition d.stateCount := d.refinements.getLastD d.initialPartition

/-- The first member of each block speaks for all of them. -/
def quotient (p : Partition d.stateCount) : Dfa :=
  let blockOf := p.blockOf
  let leaders := (p.blocks.map fun block ↦ block.headD 0).toArray
  let leader block := leaders[block]?.getD 0
  let found := explore (fun block ↦ Row.tabulate d.alphabet (d.follow? (leader block)))
    (fun s ↦ blockOf[s]?.getD 0) p.blockCount d.start
  { start := 0
    states := found.nodes.zipWith
      (fun block row ↦ ⟨d.isAccepting (leader block), row.withoutRedundant⟩) found.rows
    alphabet := d.alphabet }

def minimize : Dfa := d.quotient d.stablePartition

end Dfa

end BytePatterns
