import BytePatterns.Proofs.Dfa.Bytes
import BytePatterns.Proofs.Dfa.Quotient
import BytePatterns.Proofs.Dfa.Subset

namespace BytePatterns

def Dfa.Recognizes (d : Dfa) (l : Language UInt8) : Prop := ∀ word, d.accepts word = true ↔ word ∈ l

/-- An automaton that is stuck as soon as no word of the language begins with what it has read. -/
structure Dfa.Tight (d : Dfa) (l : Language UInt8) : Prop where
  recognizes : d.Recognizes l
  reached_iff : ∀ u, (∃ s, d.run? u = some s) ↔ ∃ word ∈ l, u <+: word

namespace Tree

variable (t : Tree)

theorem toDfa_trim : t.toNfa.toDfa.Trim :=
  t.toNfa_wellFormed.toDfa_trim fun _ hs ↦ t.exists_path_accept hs

theorem minimize_reduced : t.toNfa.toDfa.minimize.Reduced := t.toDfa_trim.minimize_reduced

theorem symbolLanguage_toDfa : t.toNfa.toDfa.symbolLanguage = t.symbolLanguage := by
  ext word
  rw [t.toNfa_wellFormed.mem_symbolLanguage_toDfa, path_start_accept_iff]

theorem symbolLanguage_minimize : t.toNfa.toDfa.minimize.symbolLanguage = t.symbolLanguage := by
  rw [t.toDfa_trim.symbolLanguage_minimize, symbolLanguage_toDfa]

theorem recognizes_of_symbolLanguage {d : Dfa} (h : d.symbolLanguage = t.symbolLanguage) :
    d.Recognizes t.language := by
  intro word
  rw [Dfa.accepts_iff, h, map_byte_mem_symbolLanguage]

theorem toDfa_recognizes : t.toNfa.toDfa.Recognizes t.language :=
  t.recognizes_of_symbolLanguage t.symbolLanguage_toDfa

theorem minimize_recognizes : t.toNfa.toDfa.minimize.Recognizes t.language :=
  t.recognizes_of_symbolLanguage t.symbolLanguage_minimize

def automata (t : Tree) : List Dfa := [t.toNfa.toDfa, t.toNfa.toDfa.minimize]

variable {t} in
theorem append_substitute_mem {u v : List Symbol} (b : UInt8) (h : u ++ v ∈ t.symbolLanguage) :
    u ++ (substituteAny b v).map .byte ∈ t.symbolLanguage :=
  t.mem_symbolLanguage_of_admits h
    (List.rel_append (Symbol.forall₂_admits_refl u) (admits_substitute b v))

theorem tight_of_symbolLanguage {d : Dfa} (htrim : d.Trim)
    (h : d.symbolLanguage = t.symbolLanguage) :
    d.Tight t.language where
  recognizes := t.recognizes_of_symbolLanguage h
  reached_iff u := by
    rw [Dfa.run?, Dfa.runFrom?_eq, ← Dfa.walk?, htrim.exists_walk?_iff, h]
    refine ⟨fun h' ↦ ?_, fun h' ↦ ?_⟩
    · obtain ⟨v, hv⟩ := h'
      refine ⟨u ++ substituteAny 0 v, ?_, List.prefix_append _ _⟩
      rw [← map_byte_mem_symbolLanguage, List.map_append]
      exact append_substitute_mem 0 hv
    · obtain ⟨_, hword, v, rfl⟩ := h'
      rw [← map_byte_mem_symbolLanguage, List.map_append] at hword
      exact ⟨v.map .byte, hword⟩

theorem trim_of_mem_automata {d : Dfa} (h : d ∈ t.automata) : d.Trim := by
  rcases List.mem_pair.1 h with rfl | rfl
  · exact t.toDfa_trim
  · exact t.minimize_reduced.toTrim

theorem symbolLanguage_of_mem_automata {d : Dfa} (h : d ∈ t.automata) :
    d.symbolLanguage = t.symbolLanguage := by
  rcases List.mem_pair.1 h with rfl | rfl
  · exact t.symbolLanguage_toDfa
  · exact t.symbolLanguage_minimize

theorem tight_of_mem_automata {d : Dfa} (h : d ∈ t.automata) : d.Tight t.language :=
  t.tight_of_symbolLanguage (t.trim_of_mem_automata h) (t.symbolLanguage_of_mem_automata h)

/-- Some word of bytes leads from each state to an accepting one, since a byte
can take the place of `any`. -/
theorem exists_acceptsFrom {d : Dfa} (h : d ∈ t.automata) {s : Nat} (hs : s < d.stateCount) :
    ∃ w, d.acceptsFrom s w = true := by
  have htrim := t.trim_of_mem_automata h
  obtain ⟨u, -, hu⟩ := htrim.reached s hs
  obtain ⟨v, hv⟩ := htrim.live s hs
  refine ⟨substituteAny 0 v, Dfa.acceptsFrom_iff.2 ?_⟩
  rw [← Dfa.leftQuotient_symbolLanguage hu, t.symbolLanguage_of_mem_automata h] at hv ⊢
  exact append_substitute_mem 0 hv

/-- The subset automaton of a tree goes through the sets of states that the
automaton of the tree can be in. -/
theorem toNfa_determinizedBy (t : Tree) :
    t.toNfa.DeterminizedBy t.toNfa.toDfa t.toNfa.subsets.nodes where
  accepts_eq := t.toNfa_wellFormed.accepts_toDfa
  stuck_iff _ := t.toNfa_wellFormed.run?_toDfa_eq_none_iff
  size_eq := Nfa.stateCount_toDfa.symm
  nodup := Nfa.subsets_valid.coherent.nodup
  reached word k hk := by
    obtain ⟨set, hrun, hset⟩ := exists_left_of_rel (t.toNfa_wellFormed.run_rel word) hk
    exact ⟨set, hset, hrun, Nfa.increasing_of_node hset, fun _ ↦
      t.toNfa_wellFormed.mem_run?_iff hrun⟩

end Tree

end BytePatterns
