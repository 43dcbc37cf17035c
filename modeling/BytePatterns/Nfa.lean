import BytePatterns.Row
import BytePatterns.Tree

namespace BytePatterns

/-- State numbers in increasing order. -/
abbrev StateSet := List Nat

structure Nfa.State where
  edges : Row Nat
  epsilons : List Nat
deriving DecidableEq

/-- A byte can follow an edge with its own label and an edge of `any`; the symbol `any` itself
stands for a byte that labels no edge and can follow only edges of `any`. -/
structure Nfa where
  start : Nat
  accept : Nat
  states : Array Nfa.State
  alphabet : Alphabet
deriving DecidableEq

namespace Nfa

/-- A search over empty moves: the states found so far, and those of them not yet followed. -/
structure Search (k : Nat) where
  found : Vector Bool k
  pending : List Nat

namespace Search

variable {k : Nat}

/-- The number of steps left at most. -/
def remaining (r : Search k) : Nat := r.found.count false + r.pending.length

/-- A state that was not found before is to be followed. -/
def meet (r : Search k) (s : Nat) : Search k :=
  if h : s < k then if r.found[s] then r else ⟨r.found.set s true, s :: r.pending⟩ else r

theorem remaining_meet (r : Search k) (s : Nat) : (r.meet s).remaining = r.remaining := by
  unfold meet
  split
  · rename_i hs
    split
    · rfl
    · rename_i hr
      have isFalse : r.found[s] = false := by simpa using hr
      have pos : 0 < r.found.count false := Vector.count_pos_iff.2 (isFalse ▸ Vector.getElem_mem hs)
      simp only [remaining, Vector.count_set, isFalse, List.length_cons]
      simp
      omega
  · rfl

def meetAll (r : Search k) (states : List Nat) : Search k := states.foldl meet r

theorem remaining_meetAll (r : Search k) (states : List Nat) :
    (r.meetAll states).remaining = r.remaining := by
  induction states generalizing r with
  | nil => rfl
  | cons s rest ih => exact (ih (r.meet s)).trans (r.remaining_meet s)

def complete (next : Nat → List Nat) (r : Search k) : Vector Bool k :=
  match r with
  | ⟨found, []⟩ => found
  | ⟨found, s :: pending⟩ => complete next (meetAll ⟨found, pending⟩ (next s))
termination_by r.remaining
decreasing_by
  rw [remaining_meetAll]
  exact Nat.lt_succ_self _

end Search

/-- The marked numbers below a bound, in front of a list. -/
def membersBelow (marks : Array Bool) : (bound : Nat) → List Nat → List Nat
  | 0, set => set
  | s + 1, set => membersBelow marks s (if marks[s]?.getD false then s :: set else set)

theorem membersBelow_eq (marks : Array Bool) (bound : Nat) (set : List Nat) :
    membersBelow marks bound set =
      ((List.range bound).filter fun s ↦ marks[s]?.getD false) ++ set := by
  induction bound generalizing set with
  | zero => rfl
  | succ s ih =>
    rw [membersBelow, ih, List.range_succ, List.filter_append, List.append_assoc]
    split <;> simp [*]

variable (n : Nfa)

def stateCount : Nat := n.states.size

def edge? (s : Nat) (sym : Symbol) : Option Nat := n.states[s]?.bind (·.edges.get? sym)

def epsilons (s : Nat) : List Nat := (n.states[s]?.map State.epsilons).getD []

def edges (s : Nat) : List (Symbol × Nat) := (n.states[s]?.map (·.edges.edges)).getD []

/-- The targets of those edges that a symbol can follow. -/
def targets (edges : List (Symbol × Nat)) (sym : Symbol) : List Nat :=
  edges.filterMap fun (label, target) ↦ if label.admits sym then some target else none

def step (s : Nat) (sym : Symbol) : List Nat := targets (n.edges s) sym

/-- The states reached from the given ones over empty moves. -/
def closure (seeds : List Nat) : StateSet :=
  let start : Search n.stateCount := ⟨Vector.replicate n.stateCount false, []⟩
  membersBelow (start.meetAll seeds |>.complete n.epsilons).toArray n.stateCount []

def moved (set : StateSet) (sym : Symbol) : List Nat := targets (set.flatMap n.edges) sym

/-- The set reached on one symbol, unless it is empty. -/
def next? (set : StateSet) (sym : Symbol) : Option StateSet :=
  match n.moved set sym with
  | [] => none
  | seeds => some (n.closure seeds)

def initial : StateSet := n.closure [n.start]

def isAccepting (set : StateSet) : Bool := set.contains n.accept

/-- The set reached on a word, unless it becomes empty on the way. -/
def run? (word : List UInt8) : Option StateSet :=
  word.foldlM (fun set b ↦ n.next? set (.byte b)) n.initial

def accepts (word : List UInt8) : Bool := (n.run? word).any n.isAccepting

end Nfa

end BytePatterns
