import BytePatterns.Proofs.Nfa.Trim

namespace BytePatterns

namespace Nfa

inductive State.Advances : State → Prop
  | edge (sym : Symbol) (target : Nat) : Advances ⟨.single sym target, []⟩
  | one (target : Nat) : Advances ⟨.empty, [target]⟩
  | two (target target' : Nat) : Advances ⟨.empty, [target, target']⟩

structure Thompson (n : Nfa) : Prop where
  start_lt : n.start < n.stateCount
  accept_lt : n.accept < n.stateCount
  not_move_accept : ∀ t, ¬n.Move n.accept t
  not_move_start : ∀ s, ¬n.Move s n.start
  moves_cases : ∀ s < n.stateCount, s ≠ n.accept →
    (n.edges s).length = 1 ∧ (n.epsilons s).length = 0 ∨
      (n.edges s).length = 0 ∧ ((n.epsilons s).length = 1 ∨ (n.epsilons s).length = 2)
  labels : n.alphabet.LabelsOf n.edge?

end Nfa

namespace Tree

open Nfa

variable {t : Tree} {base : Nat} {exits : List Nat} {state : Nfa.State}

/-- The lists hold the states before and after the accept state, which do not depend on the
exits. -/
structure Splits (t : Tree) (base : Nat) (before after : List Nfa.State) : Prop where
  accept_eq : t.accept base = base + before.length
  fragment_eq : ∀ exits, t.fragment base exits = before ++ ⟨.empty, exits⟩ :: after
  advances : ∀ state ∈ before ++ after, state.Advances

theorem Splits.advances_of_exits {before after : List Nfa.State} (h : t.Splits base before after)
    (hexits : State.Advances ⟨.empty, exits⟩) :
    ∀ state ∈ t.fragment base exits, state.Advances := by
  intro state hstate
  rw [h.fragment_eq, List.mem_append, List.mem_cons] at hstate
  rcases hstate with hbefore | rfl | hafter
  · exact h.advances state (List.mem_append_left _ hbefore)
  · exact hexits
  · exact h.advances state (List.mem_append_right _ hafter)

theorem exists_splits (t : Tree) (base : Nat) : ∃ before after, t.Splits base before after := by
  induction t generalizing base with
  | concat first second ihf ihs =>
    obtain ⟨_, _, hfirst⟩ := ihf base
    obtain ⟨before, after, hsecond⟩ := ihs (base + first.stateCount)
    refine ⟨first.fragment base [second.start (base + first.stateCount)] ++ before, after, ?_,
      fun exits ↦ ?_, ?_⟩
    · rw [accept, hsecond.accept_eq, List.length_append, length_fragment, Nat.add_assoc]
    · rw [fragment, hsecond.fragment_eq, List.append_assoc]
    · rw [List.append_assoc]
      exact List.forall_mem_append.2 ⟨hfirst.advances_of_exits (.one _), hsecond.advances⟩
  | altern first second ihf ihs =>
    obtain ⟨_, _, hfirst⟩ := ihf base
    obtain ⟨_, _, hsecond⟩ := ihs (base + first.stateCount)
    refine ⟨_, [], ?_, fun exits ↦ List.append_cons _ _ _, ?_⟩
    · simp only [accept, List.length_append, length_fragment, List.length_singleton]
      omega
    · rw [List.append_nil]
      refine List.forall_mem_append.2
        ⟨List.forall_mem_append.2 ⟨?_, ?_⟩, List.forall_mem_singleton.2 (.two _ _)⟩
      · exact hfirst.advances_of_exits (.one _)
      · exact hsecond.advances_of_exits (.one _)
  | star sub ih =>
    obtain ⟨_, _, hsub⟩ := ih base
    refine ⟨_, [], ?_, fun exits ↦ List.append_cons _ _ _, ?_⟩
    · simp only [accept, List.length_append, length_fragment, List.length_singleton]
      omega
    · rw [List.append_nil]
      exact List.forall_mem_append.2
        ⟨hsub.advances_of_exits (.two _ _), List.forall_mem_singleton.2 (.two _ _)⟩
  | any | byte _ => exact ⟨[_], [], rfl, fun _ ↦ rfl, List.forall_mem_singleton.2 (.edge _ _)⟩
  | empty => exact ⟨[_], [], rfl, fun _ ↦ rfl, List.forall_mem_singleton.2 (.one _)⟩

theorem inner_of_move {s e : Nat} (h : t.toNfa.Move s e) : t.Inner 0 e := by
  rcases h with hepsilon | ⟨sym, hedge⟩
  · obtain ⟨state, hstate, hmem⟩ := exists_of_mem_epsilons hepsilon
    exact ((t.staysIn_of_getElem? hstate).epsilon_cases e hmem).resolve_left List.not_mem_nil
  · obtain ⟨state, hstate, hmem⟩ := exists_of_mem_edges (mem_edges_iff.2 hedge)
    exact (t.staysIn_of_getElem? hstate).edge_inside _ hmem

theorem exists_states_toNfa (t : Tree) : ∃ before after, t.toNfa.accept = before.length ∧
    t.toNfa.states.toList = before ++ ⟨.empty, []⟩ :: after ∧
      ∀ state ∈ before ++ after, state.Advances := by
  obtain ⟨before, after, h⟩ := t.exists_splits 0
  exact ⟨before, after, h.accept_eq.trans (Nat.zero_add _), h.fragment_eq [], h.advances⟩

theorem getElem?_accept (t : Tree) : t.toNfa.states[t.toNfa.accept]? = some ⟨.empty, []⟩ := by
  obtain ⟨before, after, haccept, hstates, -⟩ := t.exists_states_toNfa
  rw [← Array.getElem?_toList, haccept, hstates, List.getElem?_append_right (Nat.le_refl _),
    Nat.sub_self]
  rfl

theorem advances_of_ne_accept {s : Nat} (h : t.toNfa.states[s]? = some state)
    (hne : s ≠ t.toNfa.accept) :
    state.Advances := by
  obtain ⟨before, after, haccept, hstates, hadvances⟩ := t.exists_states_toNfa
  rw [← Array.getElem?_toList, hstates] at h
  rw [haccept] at hne
  have hmem := List.mem_eraseIdx_iff_getElem?.2 ⟨s, hne, h⟩
  rw [List.eraseIdx_append_of_length_le (Nat.le_refl _), Nat.sub_self] at hmem
  exact hadvances state hmem

theorem toNfa_thompson (t : Tree) : t.toNfa.Thompson where
  start_lt := t.toNfa_wellFormed.start_lt
  accept_lt := t.toNfa_wellFormed.accept_lt
  not_move_accept := by
    rintro s (hepsilon | ⟨sym, hedge⟩)
    · rw [epsilons_of_getElem? t.getElem?_accept] at hepsilon
      exact List.not_mem_nil hepsilon
    · rw [← mem_edges_iff, edges_of_getElem? t.getElem?_accept] at hedge
      exact List.not_mem_nil hedge
  not_move_start s h := (inner_of_move h).2.2 rfl
  moves_cases := by
    intro s hs hne
    obtain ⟨state, hstate⟩ : ∃ state, t.toNfa.states[s]? = some state :=
      ⟨_, Array.getElem?_eq_getElem hs⟩
    rw [edges_of_getElem? hstate, epsilons_of_getElem? hstate]
    cases advances_of_ne_accept hstate hne with
    | edge sym target => exact .inl ⟨rfl, rfl⟩
    | one target => exact .inr ⟨rfl, .inl rfl⟩
    | two target target' => exact .inr ⟨rfl, .inr rfl⟩
  labels := t.toNfa_labelsOf

end Tree

end BytePatterns
