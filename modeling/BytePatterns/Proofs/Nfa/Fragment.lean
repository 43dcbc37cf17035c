import BytePatterns.Nfa.Fragment
import BytePatterns.Proofs.Nfa.Path
import BytePatterns.Proofs.Row

namespace BytePatterns

namespace Nfa

variable {n : Nfa} {s t : Nat}

def Holds (n : Nfa) (base : Nat) (states : List State) : Prop :=
  ∀ i state, states[i]? = some state → n.states[base + i]? = some state

theorem Holds.append_left {base : Nat} {l l' : List State} (h : n.Holds base (l ++ l')) :
    n.Holds base l := by
  intro i state hi
  obtain ⟨hlt, -⟩ := List.getElem?_eq_some_iff.1 hi
  exact h i state (by rwa [List.getElem?_append_left hlt])

theorem Holds.append_right {base : Nat} {l l' : List State} (h : n.Holds base (l ++ l')) :
    n.Holds (base + l.length) l' := by
  intro i state hi
  rw [Nat.add_assoc]
  refine h (l.length + i) state ?_
  rwa [List.getElem?_append_right (Nat.le_add_right _ _), Nat.add_sub_cancel_left]

theorem Holds.first {base : Nat} {state : State} {rest : List State}
    (h : n.Holds base (state :: rest)) :
    n.states[base]? = some state := h 0 state rfl

theorem Holds.second {base : Nat} {state state' : State} {rest : List State}
    (h : n.Holds base (state :: state' :: rest)) : n.states[base + 1]? = some state' :=
  h 1 state' rfl

theorem epsilons_of_getElem? {state : State} (h : n.states[s]? = some state) :
    n.epsilons s = state.epsilons := by simp [epsilons, h]

theorem edges_of_getElem? {state : State} (h : n.states[s]? = some state) :
    n.edges s = state.edges.edges := by simp [edges, h]

theorem exists_of_mem_epsilons (h : t ∈ n.epsilons s) :
    ∃ state, n.states[s]? = some state ∧ t ∈ state.epsilons := by
  cases hstate : n.states[s]? with
  | none => simp [epsilons, hstate] at h
  | some state => exact ⟨state, rfl, epsilons_of_getElem? hstate ▸ h⟩

theorem exists_of_mem_edges {e : Symbol × Nat} (h : e ∈ n.edges s) :
    ∃ state, n.states[s]? = some state ∧ e ∈ state.edges.edges := by
  cases hstate : n.states[s]? with
  | none => simp [edges, hstate] at h
  | some state => exact ⟨state, rfl, edges_of_getElem? hstate ▸ h⟩

theorem step_of_empty {exits : List Nat} (h : n.states[s]? = some ⟨.empty, exits⟩) (sym : Symbol) :
    n.step s sym = [] := by
  simp [step, edges_of_getElem? h, Row.empty, targets]

theorem mem_step_single {label : Symbol} {target : Nat} {exits : List Nat}
    (h : n.states[s]? = some ⟨.single label target, exits⟩) {sym : Symbol} :
    t ∈ n.step s sym ↔ label.admits sym ∧ t = target := by
  simp [step, edges_of_getElem? h, Row.single, mem_targets, and_comm]

/-- The empty moves of a state lead inside or to the exits, its labelled edges inside. -/
structure State.StaysIn (state : State) (inside : Nat → Prop) (exits : List Nat)
    (symbols : List Symbol) : Prop where
  epsilon_cases : ∀ e ∈ state.epsilons, e ∈ exits ∨ inside e
  edge_inside : ∀ e ∈ state.edges.edges, inside e.2
  label_mem : ∀ e ∈ state.edges.edges, e.1 ∈ symbols

namespace State.StaysIn

variable {state : State} {inside inside' : Nat → Prop} {exits exits' : List Nat}
  {symbols symbols' : List Symbol}

theorem mono (h : state.StaysIn inside exits symbols) (hinside : ∀ e, inside e → inside' e)
    (hexits : ∀ e ∈ exits, e ∈ exits' ∨ inside' e) (hsymbols : symbols ⊆ symbols') :
    state.StaysIn inside' exits' symbols' where
  epsilon_cases e he := (h.epsilon_cases e he).elim (hexits e) fun hin ↦ .inr (hinside e hin)
  edge_inside e he := hinside _ (h.edge_inside e he)
  label_mem e he := hsymbols (h.label_mem e he)

theorem of_empty (h : ∀ e ∈ exits', e ∈ exits ∨ inside e) :
    (⟨.empty, exits'⟩ : State).StaysIn inside exits symbols where
  epsilon_cases := h
  edge_inside := by simp [Row.empty]
  label_mem := by simp [Row.empty]

theorem of_exits : (⟨.empty, exits⟩ : State).StaysIn inside exits symbols :=
  .of_empty fun _ he ↦ .inl he

theorem of_single {label : Symbol} {target : Nat} (hin : inside target) (hmem : label ∈ symbols) :
    (⟨.single label target, []⟩ : State).StaysIn inside exits symbols where
  epsilon_cases := by simp
  edge_inside := by simpa [Row.single] using hin
  label_mem := by simpa [Row.single] using hmem

end State.StaysIn

end Nfa

namespace Tree

open Nfa

section counts

variable (t : Tree) (base : Nat) (exits : List Nat)

theorem length_fragment : (t.fragment base exits).length = t.stateCount := by
  induction t generalizing base exits with
  | concat first second ihf ihs => simp [fragment, stateCount, ihf, ihs]
  | altern first second ihf ihs => simp [fragment, stateCount, ihf, ihs]; omega
  | star sub ih => simp [fragment, stateCount, ih]
  | any | byte _ | empty => rfl

theorem start_bounds : base ≤ t.start base ∧ t.start base < base + t.stateCount := by
  induction t generalizing base with
  | concat first second ihf ihs =>
    have := ihf base
    simp only [start, stateCount]
    omega
  | altern first second ihf ihs => simp only [start, stateCount]; omega
  | star sub ih => simp only [start, stateCount]; omega
  | any | byte _ | empty => simp [start, stateCount]

theorem accept_bounds : base ≤ t.accept base ∧ t.accept base < base + t.stateCount := by
  induction t generalizing base with
  | concat first second ihf ihs =>
    have := ihs (base + first.stateCount)
    simp only [accept, stateCount]
    omega
  | altern first second ihf ihs => simp only [accept, stateCount]; omega
  | star sub ih => simp only [accept, stateCount]; omega
  | any | byte _ | empty => simp [accept, stateCount]

end counts

section holds

variable {t first second sub : Tree} {base : Nat} {exits : List Nat} {n : Nfa}

theorem holds_concat (h : n.Holds base ((concat first second).fragment base exits)) :
    n.Holds base (first.fragment base [second.start (base + first.stateCount)]) ∧
      n.Holds (base + first.stateCount) (second.fragment (base + first.stateCount) exits) := by
  refine ⟨h.append_left, ?_⟩
  have hright := h.append_right
  rwa [length_fragment] at hright

theorem holds_altern (h : n.Holds base ((altern first second).fragment base exits)) :
    let middle := base + first.stateCount
    let top := middle + second.stateCount
    n.Holds base (first.fragment base [top + 1]) ∧
      n.Holds middle (second.fragment middle [top + 1]) ∧
      n.states[top]? = some ⟨.empty, [first.start base, second.start middle]⟩ ∧
      n.states[top + 1]? = some ⟨.empty, exits⟩ := by
  have hsecond := h.append_left.append_right
  have hends := h.append_right
  rw [length_fragment] at hsecond
  rw [List.length_append, length_fragment, length_fragment, ← Nat.add_assoc] at hends
  exact ⟨h.append_left.append_left, hsecond, hends.first, hends.second⟩

theorem holds_star (h : n.Holds base ((star sub).fragment base exits)) :
    let top := base + sub.stateCount
    n.Holds base (sub.fragment base [sub.start base, top + 1]) ∧
      n.states[top]? = some ⟨.empty, [sub.start base, top + 1]⟩ ∧
      n.states[top + 1]? = some ⟨.empty, exits⟩ := by
  have hends := h.append_right
  rw [length_fragment] at hends
  exact ⟨h.append_left, hends.first, hends.second⟩

theorem epsilons_accept (holds : n.Holds base (t.fragment base exits)) :
    n.epsilons (t.accept base) = exits := by
  induction t generalizing base exits with
  | concat first second ihf ihs => exact ihs (holds_concat holds).2
  | altern first second ihf ihs => exact epsilons_of_getElem? (holds_altern holds).2.2.2
  | star sub ih => exact epsilons_of_getElem? (holds_star holds).2.2
  | any | byte _ | empty => exact epsilons_of_getElem? holds.second

end holds

section members

variable {t : Tree} {base : Nat} {exits : List Nat} {state : Nfa.State}

theorem mem_fragment_concat {first second : Tree} :
    state ∈ (concat first second).fragment base exits ↔
      state ∈ first.fragment base [second.start (base + first.stateCount)] ∨
        state ∈ second.fragment (base + first.stateCount) exits := List.mem_append

theorem mem_fragment_altern {first second : Tree} :
    let middle := base + first.stateCount
    let top := middle + second.stateCount
    state ∈ (altern first second).fragment base exits ↔
      state ∈ first.fragment base [top + 1] ∨ state ∈ second.fragment middle [top + 1] ∨
        state = ⟨.empty, [first.start base, second.start middle]⟩ ∨ state = ⟨.empty, exits⟩ := by
  simp [fragment]

theorem mem_fragment_star {sub : Tree} :
    let top := base + sub.stateCount
    state ∈ (star sub).fragment base exits ↔
      state ∈ sub.fragment base [sub.start base, top + 1] ∨
        state = ⟨.empty, [sub.start base, top + 1]⟩ ∨ state = ⟨.empty, exits⟩ := by
  simp [fragment]

def Inner (t : Tree) (base s : Nat) : Prop := base ≤ s ∧ s < base + t.stateCount ∧ s ≠ t.start base

/-- Only the accept state of a fragment has moves out of it, and these are its exits. No move in the
fragment leads back to its start state. -/
theorem staysIn_of_mem_fragment (h : state ∈ t.fragment base exits) :
    state.StaysIn (t.Inner base) exits t.symbols := by
  induction t generalizing base exits with
  | concat first second ihf ihs =>
    have hstartf := first.start_bounds base
    have hstarts := second.start_bounds (base + first.stateCount)
    have hfirst : ∀ s, first.Inner base s → (concat first second).Inner base s := by
      simp only [Inner, stateCount, start]
      omega
    have hsecond :
        ∀ s, second.Inner (base + first.stateCount) s → (concat first second).Inner base s := by
      simp only [Inner, stateCount, start]
      omega
    rcases mem_fragment_concat.1 h with h | h
    · refine (ihf h).mono hfirst ?_ (List.subset_append_left _ _)
      simp only [List.forall_mem_singleton, Inner, stateCount, start]
      omega
    · exact (ihs h).mono hsecond (fun _ he ↦ .inl he) (List.subset_append_right _ _)
  | altern first second ihf ihs =>
    have hstartf := first.start_bounds base
    have hstarts := second.start_bounds (base + first.stateCount)
    have hfirst : ∀ s, first.Inner base s → (altern first second).Inner base s := by
      simp only [Inner, stateCount, start]
      omega
    have hsecond :
        ∀ s, second.Inner (base + first.stateCount) s → (altern first second).Inner base s := by
      simp only [Inner, stateCount, start]
      omega
    have hexit : ∀ e ∈ [base + first.stateCount + second.stateCount + 1],
        e ∈ exits ∨ (altern first second).Inner base e := by
      simp only [List.forall_mem_singleton, Inner, stateCount, start]
      omega
    rcases mem_fragment_altern.1 h with h | h | rfl | rfl
    · exact (ihf h).mono hfirst hexit (List.subset_append_left _ _)
    · exact (ihs h).mono hsecond hexit (List.subset_append_right _ _)
    · refine .of_empty fun e he ↦ .inr ?_
      rcases List.mem_pair.1 he with rfl | rfl
      all_goals
        simp only [Inner, stateCount, start]
        omega
    · exact .of_exits
  | star sub ih =>
    have hstart := sub.start_bounds base
    have hsub : ∀ s, sub.Inner base s → (star sub).Inner base s := by
      simp only [Inner, stateCount, start]
      omega
    have hinside :
        ∀ e ∈ [sub.start base, base + sub.stateCount + 1], e ∈ exits ∨ (star sub).Inner base e := by
      intro e he
      simp only [Inner, stateCount, start]
      rcases List.mem_pair.1 he with rfl | rfl <;> omega
    rcases mem_fragment_star.1 h with h | rfl | rfl
    · exact (ih h).mono hsub hinside (List.Subset.refl _)
    · exact .of_empty hinside
    · exact .of_exits
  | any | byte _ =>
    rcases List.mem_pair.1 h with rfl | rfl
    · refine .of_single ?_ (List.mem_singleton_self _)
      simp [Inner, stateCount, start]
    · exact .of_exits
  | empty =>
    rcases List.mem_pair.1 h with rfl | rfl
    · refine .of_empty ?_
      simp [Inner, stateCount, start]
    · exact .of_exits

end members

section toNfa

variable (t : Tree)

theorem stateCount_toNfa : t.toNfa.stateCount = t.stateCount := t.length_fragment 0 []

theorem holds_toNfa : t.toNfa.Holds 0 (t.fragment 0 []) := by
  intro i state h
  simpa [toNfa] using h

theorem staysIn_of_getElem? {s : Nat} {state : Nfa.State} (h : t.toNfa.states[s]? = some state) :
    state.StaysIn (t.Inner 0) [] t.symbols :=
  staysIn_of_mem_fragment (List.mem_of_getElem? (by simpa [toNfa] using h))

theorem lt_of_inner {s : Nat} (h : t.Inner 0 s) : s < t.toNfa.stateCount := by
  rw [stateCount_toNfa, ← Nat.zero_add t.stateCount]
  exact h.2.1

theorem toNfa_wellFormed : t.toNfa.WellFormed where
  start_lt := by
    rw [stateCount_toNfa]
    simpa [toNfa] using (t.start_bounds 0).2
  accept_lt := by
    rw [stateCount_toNfa]
    simpa [toNfa] using (t.accept_bounds 0).2
  epsilon_lt := by
    intro s e he
    obtain ⟨state, hstate, hmem⟩ := exists_of_mem_epsilons he
    exact t.lt_of_inner
      (((t.staysIn_of_getElem? hstate).epsilon_cases e hmem).resolve_left List.not_mem_nil)
  edge_lt := by
    intro s e he
    obtain ⟨state, hstate, hmem⟩ := exists_of_mem_edges he
    exact t.lt_of_inner ((t.staysIn_of_getElem? hstate).edge_inside e hmem)
  label_mem := by
    intro s e he
    obtain ⟨state, hstate, hmem⟩ := exists_of_mem_edges he
    exact Alphabet.mem_ofList.2 ((t.staysIn_of_getElem? hstate).label_mem e hmem)

end toNfa

end Tree

end BytePatterns
