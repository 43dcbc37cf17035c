import BytePatterns.Journal
import BytePatterns.Proofs.Interning
import BytePatterns.Proofs.Tree.Automata
import Mathlib.Data.Set.Function

namespace BytePatterns

namespace Nfa

open Exploration

variable {n : Nfa} {set next : StateSet} {sym : Symbol} {i j k u : Nat}

def successor (n : Nfa) (set : Set Nat) (sym : Symbol) : Set Nat :=
  {u | ∃ s ∈ set, ∃ t ∈ n.step s sym, n.Reaches t u}

/-- The sets of states that words over the alphabet lead to. -/
inductive CanBeIn (n : Nfa) : Set Nat → Prop
  | start : CanBeIn n {s | n.Reaches n.start s}
  | move {set : Set Nat} {sym : Symbol} :
      CanBeIn n set → sym ∈ n.alphabet → (n.successor set sym).Nonempty →
      CanBeIn n (n.successor set sym)

theorem CanBeIn.nonempty {set : Set Nat} (h : n.CanBeIn set) : set.Nonempty := by
  cases h with
  | start => exact ⟨n.start, .refl⟩
  | move _ _ hne => exact hne

theorem CanBeIn.closed {set : Set Nat} (h : n.CanBeIn set) :
    ∀ s ∈ set, ∀ t, n.Reaches s t → t ∈ set := by
  cases h with
  | start => exact fun s hs t hreach ↦ hs.trans hreach
  | move =>
    intro s hs t hreach
    obtain ⟨r, hr, q, hq, hqs⟩ := hs
    exact ⟨r, hr, q, hq, hqs.trans hreach⟩

def members (n : Nfa) (k : Nat) : Set Nat := {s | ∃ set, n.subsets.nodes[k]? = some set ∧ s ∈ set}

theorem members_eq (h : n.subsets.nodes[k]? = some set) : n.members k = {s | s ∈ set} := by
  ext s
  simp [members, h]

theorem WellFormed.setOf_next (h : n.WellFormed) (hnext : n.next? set sym = some next) :
    {s | s ∈ next} = n.successor {s | s ∈ set} sym := by
  obtain ⟨-, rfl⟩ := next?_eq_some_iff.1 hnext
  ext u
  refine (mem_closure_iff h.epsilon_lt).trans ⟨fun h' ↦ ?_, fun h' ↦ ?_⟩
  · obtain ⟨t, ht, -, hreach⟩ := h'
    obtain ⟨s, hs, hstep⟩ := mem_moved.1 ht
    exact ⟨s, hs, t, hstep, hreach⟩
  · obtain ⟨s, hs, t, hstep, hreach⟩ := h'
    exact ⟨t, mem_moved.2 ⟨s, hs, hstep⟩, h.step_lt hstep, hreach⟩

theorem exists_next_iff :
    (∃ next, n.next? set sym = some next) ↔ (n.successor {s | s ∈ set} sym).Nonempty := by
  refine ⟨fun h ↦ ?_, fun h ↦ ?_⟩
  · obtain ⟨next, hnext⟩ := h
    obtain ⟨t, ht⟩ := List.exists_mem_of_ne_nil _ (next?_eq_some_iff.1 hnext).1
    obtain ⟨s, hs, hstep⟩ := mem_moved.1 ht
    exact ⟨t, s, hs, t, hstep, .refl⟩
  · obtain ⟨u, s, hs, t, hstep, -⟩ := h
    exact ⟨_, next?_eq_some_iff.2 ⟨List.ne_nil_of_mem (mem_moved.2 ⟨s, hs, hstep⟩), rfl⟩⟩

theorem WellFormed.members_edge (h : n.WellFormed) (hu : n.toDfa.edge? k sym = some u) :
    sym ∈ n.alphabet ∧ (n.successor (n.members k) sym).Nonempty ∧
      n.members u = n.successor (n.members k) sym := by
  obtain ⟨set, hset⟩ := exists_set (Dfa.lt_of_edge? hu)
  obtain ⟨next, hnext, hnode⟩ := exists_left_of_rel (edge_rel hset sym) hu
  rw [Option.ite_none_right_eq_some] at hnext
  obtain ⟨hsym, hnext⟩ := hnext
  rw [members_eq hset, members_eq hnode]
  exact ⟨hsym, exists_next_iff.1 ⟨next, hnext⟩, h.setOf_next hnext⟩

end Nfa

end BytePatterns
