import BytePatterns.Proofs.Nfa.Trim
import BytePatterns.Proofs.Tree.Automata

namespace BytePatterns

open Relation (ReflTransGen)

namespace Dfa

variable {d : Dfa} {s t : Nat} {word : List Symbol}

def Edge (d : Dfa) (s t : Nat) : Prop := ∃ sym, d.edge? s sym = some t

/-- Every state is reached along edges, and some word of bytes leads from it to an accepting
state. -/
structure ByteTrim (d : Dfa) : Prop where
  reached : ∀ s < d.stateCount, ReflTransGen d.Edge d.start s
  live : ∀ s < d.stateCount, ∃ w, d.acceptsFrom s w = true
  progress : ∀ s < d.stateCount, d.isAccepting s = false → ∃ t, d.Edge s t

theorem edges_of_walkFrom? (h : d.walkFrom? s word = some t) : ReflTransGen d.Edge s t := by
  induction word generalizing s with
  | nil => exact Option.some.inj h ▸ .refl
  | cons sym word ih =>
    rw [walkFrom?_cons, Option.bind_eq_some_iff] at h
    obtain ⟨r, hr, hrest⟩ := h
    exact .head (exists_edge_of_follow? hr) (ih hrest)

theorem exists_edge_of_acceptsFrom {w : List UInt8} (h : d.acceptsFrom s w = true)
    (hs : d.isAccepting s = false) : ∃ t, d.Edge s t := by
  rw [acceptsFrom_iff] at h
  cases w with
  | nil =>
    rw [List.map_nil, nil_mem_residual, hs] at h
    cases h
  | cons b w =>
    obtain ⟨t, ht, -⟩ := cons_mem_residual.1 h
    exact ⟨t, exists_edge_of_follow? ht⟩

end Dfa

namespace Tree

/-- All automata of a tree are trim, and for the deterministic ones bytes are enough. -/
theorem automata_trim (t : Tree) : t.toNfa.Trim ∧ ∀ d ∈ t.automata, d.ByteTrim := by
  refine ⟨t.toNfa_trim, fun d hd ↦ ?_⟩
  have htrim := t.trim_of_mem_automata hd
  have hlive := fun s hs ↦ t.exists_acceptsFrom hd (s := s) hs
  refine ⟨fun s hs ↦ ?_, hlive, fun s hs hfinal ↦ ?_⟩
  · obtain ⟨word, -, hwalk⟩ := htrim.reached s hs
    exact Dfa.edges_of_walkFrom? hwalk
  · obtain ⟨w, hw⟩ := hlive s hs
    exact Dfa.exists_edge_of_acceptsFrom hw hfinal

end Tree

end BytePatterns
