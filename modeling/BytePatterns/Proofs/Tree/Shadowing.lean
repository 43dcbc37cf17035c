import BytePatterns.Proofs.Tree.Subsets

namespace BytePatterns

namespace Nfa

variable {n : Nfa} {sym : Symbol} {k u v : Nat} {b : UInt8}

theorem successor_any_subset (n : Nfa) (set : Set Nat) (sym : Symbol) :
    n.successor set .any ⊆ n.successor set sym := by
  rintro t ⟨s, hs, r, hstep, hreach⟩
  exact ⟨s, hs, r, mem_step_of_any hstep sym, hreach⟩

theorem WellFormed.members_any_subset (h : n.WellFormed) (hany : n.toDfa.edge? k .any = some u)
    (hsym : n.toDfa.edge? k sym = some v) : n.members u ⊆ n.members v := by
  rw [(h.members_edge hany).2.2, (h.members_edge hsym).2.2]
  exact n.successor_any_subset _ sym

theorem WellFormed.members_subset_of_next? (h : n.WellFormed) (hany : n.toDfa.edge? k .any = some u)
    (hnext : n.toDfa.next? k b = some v) : n.members u ⊆ n.members v := by
  rcases Option.or_eq_some_iff.1 hnext with hbyte | ⟨-, hfall⟩
  · exact h.members_any_subset hany hbyte
  · exact h.members_any_subset hany hfall

/-- Where the subset automaton has an edge of `any`, each byte of the alphabet has one of its own,
and all bytes lead to sets that hold the one that `any` leads to. -/
structure AbsorbsAny (n : Nfa) : Prop where
  exists_edge : ∀ k u b, n.toDfa.edge? k .any = some u → .byte b ∈ n.alphabet →
    ∃ v, n.toDfa.edge? k (.byte b) = some v
  members_subset : ∀ k u b v, n.toDfa.edge? k .any = some u → n.toDfa.next? k b = some v →
    n.members u ⊆ n.members v

theorem WellFormed.absorbsAny (h : n.WellFormed) : n.AbsorbsAny where
  exists_edge _ _ _ hany hb := exists_edge?_of_any hany hb
  members_subset _ _ _ _ hany hnext := h.members_subset_of_next? hany hnext

end Nfa

def Dfa.AllowsAny (d : Dfa) : Prop :=
  ∀ s u, d.edge? s .any = some u → ∀ b, ∃ v, d.next? s b = some v ∧
  ∀ w, d.acceptsFrom u w = true → d.acceptsFrom v w = true

namespace Tree

variable {t : Tree} {d : Dfa} {x y : List Symbol} {u : Nat}

/-- If symbols of a word that leads to a state are replaced by symbols that could have been read
there as well, the new word leads to a state with at least the same residual. -/
theorem exists_walk?_of_admits (hd : d ∈ t.automata)
    (hadmits : List.Forall₂ (fun a b ↦ a.admits b = true) x y) (hx : d.walk? x = some u) :
    ∃ v, d.walk? y = some v ∧ ∀ word ∈ d.residual u, word ∈ d.residual v := by
  have hreplace {word : List Symbol} (hword : word ∈ d.residual u) :
      y ++ word ∈ d.symbolLanguage := by
    rw [← Dfa.leftQuotient_symbolLanguage hx, t.symbolLanguage_of_mem_automata hd] at hword
    rw [t.symbolLanguage_of_mem_automata hd]
    exact t.mem_symbolLanguage_of_admits hword
      (List.rel_append hadmits (Symbol.forall₂_admits_refl word))
  have htrim := t.trim_of_mem_automata hd
  obtain ⟨word, hword⟩ := htrim.live u (htrim.walk?_lt hx)
  obtain ⟨v, hv⟩ := Dfa.walk?_isSome_of_mem (u := y) (hreplace hword)
  refine ⟨v, hv, fun word hword ↦ ?_⟩
  rw [← Dfa.leftQuotient_symbolLanguage hv]
  exact hreplace hword

theorem allowsAny_of_mem_automata (hd : d ∈ t.automata) : d.AllowsAny := by
  intro s u hany b
  obtain ⟨x, -, hx⟩ := (t.trim_of_mem_automata hd).reached s (Dfa.lt_of_edge? hany)
  have hwalk (sym : Symbol) : d.walk? (x ++ [sym]) = d.follow? s sym := by
    rw [Dfa.walk?_append_singleton, hx, Option.bind_some]
  have hadmits : List.Forall₂ (fun a b ↦ a.admits b = true) (x ++ [.any]) (x ++ [.byte b]) :=
    List.rel_append (Symbol.forall₂_admits_refl x) (.cons rfl .nil)
  obtain ⟨v, hv, hresidual⟩ := exists_walk?_of_admits hd hadmits ((hwalk .any).trans hany)
  refine ⟨v, (hwalk (.byte b)).symm.trans hv, fun w hw ↦ ?_⟩
  exact Dfa.acceptsFrom_iff.2 (hresidual _ (Dfa.acceptsFrom_iff.1 hw))

/-- In the automata of a tree no byte hides what `any` allows. -/
theorem automata_allowsAny (t : Tree) : (∀ d ∈ t.automata, d.AllowsAny) ∧ t.toNfa.AbsorbsAny :=
  ⟨fun _ hd ↦ allowsAny_of_mem_automata hd, t.toNfa_wellFormed.absorbsAny⟩

end Tree

end BytePatterns
