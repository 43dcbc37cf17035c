import BytePatterns.Proofs.Nfa.Residue

namespace BytePatterns

open Relation (ReflTransGen)

namespace Nfa

variable {n : Nfa} {s t : Nat} {sym : Symbol} {word : List Symbol}

def Move (n : Nfa) (s t : Nat) : Prop := t ∈ n.epsilons s ∨ ∃ sym, n.edge? s sym = some t

structure Trim (n : Nfa) : Prop extends WellFormed n where
  reached : ∀ s < n.stateCount, ReflTransGen n.Move n.start s
  live : ∀ s < n.stateCount, ReflTransGen n.Move s n.accept

theorem mem_edges_iff : (sym, t) ∈ n.edges s ↔ n.edge? s sym = some t := by
  cases hstate : n.states[s]? with
  | none => simp [edges, edge?, hstate]
  | some state => simp [edges, edge?, hstate, Row.get?_eq_some_iff]

theorem exists_edge_of_step (h : t ∈ n.step s sym) : ∃ label, n.edge? s label = some t := by
  obtain ⟨label, hmem, -⟩ := mem_targets.1 h
  exact ⟨label, mem_edges_iff.1 hmem⟩

theorem mem_step_of_edge? (h : n.edge? s sym = some t) : t ∈ n.step s sym :=
  mem_targets.2 ⟨sym, mem_edges_iff.2 h, Symbol.admits_iff.2 (.inr rfl)⟩

theorem Path.moves (h : n.Path s word t) : ReflTransGen n.Move s t := by
  induction h with
  | nil => exact .refl
  | epsilon hmove _ ih => exact .head (.inl hmove) ih
  | edge hstep _ ih => exact .head (.inr (exists_edge_of_step hstep)) ih

theorem exists_path_of_moves (h : ReflTransGen n.Move s t) : ∃ word, n.Path s word t := by
  induction h using ReflTransGen.head_induction_on with
  | refl => exact ⟨[], .nil t⟩
  | head hmove _ ih =>
    obtain ⟨word, hpath⟩ := ih
    rcases hmove with hepsilon | ⟨sym, hedge⟩
    · exact ⟨word, .epsilon hepsilon hpath⟩
    · exact ⟨sym :: word, .edge (mem_step_of_edge? hedge) hpath⟩

end Nfa

namespace Tree

open Nfa

section fragments

variable {t first second sub : Tree} {base : Nat} {exits : List Nat} {n : Nfa}

def Entered (n : Nfa) (t : Tree) (base : Nat) : Prop :=
  ∀ s, base ≤ s → s < base + t.stateCount → ReflTransGen n.Move (t.start base) s

theorem Entered.accept (h : Entered n t base) :
    ReflTransGen n.Move (t.start base) (t.accept base) :=
  h _ (t.accept_bounds base).1 (t.accept_bounds base).2

theorem move_accept (holds : n.Holds base (t.fragment base exits)) {s : Nat} (hs : s ∈ exits) :
    n.Move (t.accept base) s := by
  rw [← epsilons_accept holds] at hs
  exact .inl hs

theorem move_of_empty {s e : Nat} {moves : List Nat} (h : n.states[s]? = some ⟨.empty, moves⟩)
    (he : e ∈ moves) : n.Move s e := by
  refine .inl ?_
  rwa [epsilons_of_getElem? h]

theorem entered_concat (holds : n.Holds base ((concat first second).fragment base exits))
    (hf : Entered n first base) (hs : Entered n second (base + first.stateCount)) :
    Entered n (concat first second) base := by
  obtain ⟨hfirst, -⟩ := holds_concat holds
  intro s hbase hlt
  rw [stateCount, ← Nat.add_assoc] at hlt
  rcases Nat.lt_or_ge s (base + first.stateCount) with h | h
  · exact hf s hbase h
  · have hjoin := move_accept hfirst (List.mem_singleton_self _)
    exact (hf.accept.tail hjoin).trans (hs s h hlt)

theorem entered_altern (holds : n.Holds base ((altern first second).fragment base exits))
    (hf : Entered n first base) (hs : Entered n second (base + first.stateCount)) :
    Entered n (altern first second) base := by
  obtain ⟨hfirst, -, htop, -⟩ := holds_altern holds
  have enterFirst := move_of_empty htop List.mem_cons_self
  have enterSecond := move_of_empty htop (List.mem_cons_of_mem _ (List.mem_singleton_self _))
  intro s hbase hlt
  rcases altern_state_cases hlt with h | ⟨h, h'⟩ | rfl | rfl
  · exact .head enterFirst (hf s hbase h)
  · exact .head enterSecond (hs s h h')
  · exact .refl
  · exact .head enterFirst (hf.accept.tail (move_accept hfirst (List.mem_singleton_self _)))

theorem entered_star (holds : n.Holds base ((star sub).fragment base exits))
    (hsub : Entered n sub base) : Entered n (star sub) base := by
  obtain ⟨-, htop, -⟩ := holds_star holds
  have enter := move_of_empty htop List.mem_cons_self
  have skip := move_of_empty htop (List.mem_cons_of_mem _ (List.mem_singleton_self _))
  intro s hbase hlt
  rcases star_state_cases hlt with h | rfl | rfl
  · exact .head enter (hsub s hbase h)
  · exact .refl
  · exact .single skip

theorem entered_leaf (hmove : n.Move base (base + 1)) {s : Nat} (hbase : base ≤ s)
    (hs : s < base + 2) : ReflTransGen n.Move base s := by
  obtain rfl | rfl : s = base ∨ s = base + 1 := by omega
  · exact .refl
  · exact .single hmove

theorem edge?_of_single {label : Symbol} {target : Nat}
    (h : n.states[base]? = some ⟨.single label target, []⟩) : n.edge? base label = some target := by
  rw [← mem_edges_iff, edges_of_getElem? h]
  exact List.mem_singleton_self _

theorem entered_of_holds (holds : n.Holds base (t.fragment base exits)) : Entered n t base := by
  induction t generalizing base exits with
  | concat first second ihf ihs =>
    obtain ⟨hfirst, hsecond⟩ := holds_concat holds
    exact entered_concat holds (ihf hfirst) (ihs hsecond)
  | altern first second ihf ihs =>
    obtain ⟨hfirst, hsecond, -⟩ := holds_altern holds
    exact entered_altern holds (ihf hfirst) (ihs hsecond)
  | star sub ih =>
    obtain ⟨hsub, -⟩ := holds_star holds
    exact entered_star holds (ih hsub)
  | any | byte _ => exact fun s ↦ entered_leaf (.inr ⟨_, edge?_of_single holds.first⟩)
  | empty => exact fun s ↦ entered_leaf (move_of_empty holds.first (List.mem_singleton_self _))

theorem exists_edge_of_mem_symbols (holds : n.Holds base (t.fragment base exits)) {sym : Symbol}
    (h : sym ∈ t.symbols) : ∃ s target, n.edge? s sym = some target := by
  induction t generalizing base exits with
  | concat first second ihf ihs =>
    obtain ⟨hfirst, hsecond⟩ := holds_concat holds
    exact (List.mem_append.1 h).elim (ihf hfirst) (ihs hsecond)
  | altern first second ihf ihs =>
    obtain ⟨hfirst, hsecond, -⟩ := holds_altern holds
    exact (List.mem_append.1 h).elim (ihf hfirst) (ihs hsecond)
  | star sub ih =>
    obtain ⟨hsub, -⟩ := holds_star holds
    exact ih hsub h
  | any | byte _ =>
    obtain rfl := List.mem_singleton.1 h
    exact ⟨base, base + 1, edge?_of_single holds.first⟩
  | empty => exact absurd h List.not_mem_nil

end fragments

theorem toNfa_trim (t : Tree) : t.toNfa.Trim where
  toWellFormed := t.toNfa_wellFormed
  reached s hs := by
    rw [stateCount_toNfa] at hs
    exact entered_of_holds t.holds_toNfa s s.zero_le (by simpa using hs)
  live s hs := by
    obtain ⟨word, hpath⟩ := t.exists_path_accept hs
    exact hpath.moves

theorem toNfa_labelsOf (t : Tree) : t.toNfa.alphabet.LabelsOf t.toNfa.edge? := by
  refine fun sym ↦ ⟨fun h ↦ ?_, fun h ↦ ?_⟩
  · exact exists_edge_of_mem_symbols t.holds_toNfa (Alphabet.mem_ofList.1 h)
  · obtain ⟨s, target, hedge⟩ := h
    exact t.toNfa_wellFormed.label_mem s _ (mem_edges_iff.2 hedge)

end Tree

end BytePatterns
