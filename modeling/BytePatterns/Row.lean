import BytePatterns.Symbol

namespace BytePatterns

/-- The edges that leave one state, in the order of their symbols. -/
structure Row (α : Type) where
  edges : List (Symbol × α)
  increasing : edges.Pairwise (·.1 < ·.1)
deriving DecidableEq

namespace Row

variable {α β : Type}

def empty : Row α := ⟨[], .nil⟩

def single (s : Symbol) (target : α) : Row α := ⟨[(s, target)], by simp⟩

def get? (r : Row α) (s : Symbol) : Option α := r.edges.lookup s

/-- The symbols of an alphabet that have a target. -/
def tabulate (a : Alphabet) (target? : Symbol → Option α) : Row α where
  edges := a.symbols.filterMap fun s ↦ (target? s).map (s, ·)
  increasing := by
    refine List.pairwise_filterMap.2 (a.increasing.imp fun {s t} h p hp q hq ↦ ?_)
    obtain ⟨x, -, rfl⟩ := Option.map_eq_some_iff.1 hp
    obtain ⟨y, -, rfl⟩ := Option.map_eq_some_iff.1 hq
    exact h

def map (f : α → β) (r : Row α) : Row β where
  edges := r.edges.map fun e ↦ (e.1, f e.2)
  increasing := List.pairwise_map.2 r.increasing

def filter (keep : Symbol → α → Bool) (r : Row α) : Row α where
  edges := r.edges.filter fun e ↦ keep e.1 e.2
  increasing := r.increasing.filter _

def targets (r : Row α) : List α := r.edges.map (·.2)

def size (r : Row α) : Nat := r.edges.length

end Row

end BytePatterns
