import BytePatterns.Proofs.Diagram
import BytePatterns.Proofs.Nfa.Trim

namespace BytePatterns

/-- What comes from one place of a list. -/
theorem filterMap_flatMap_zipIdx {α β γ : Type} {f : α → Nat → List β} {g : β → Option γ} {s : Nat}
    (h : ∀ a i, i ≠ s → (f a i).filterMap g = []) (l : List α) :
    (l.zipIdx.flatMap fun (a, i) ↦ f a i).filterMap g =
      (l[s]?.map fun a ↦ (f a s).filterMap g).getD [] := by
  induction l using List.reverseRecOn with
  | nil => rfl
  | append_singleton l a ih =>
    rw [List.zipIdx_append, List.flatMap_append, List.filterMap_append, ih]
    rcases Nat.lt_trichotomy s l.length with hs | rfl | hs
    · rw [List.getElem?_append_left hs]
      simp [h a l.length (Nat.ne_of_gt hs)]
    · simp
    · rw [List.getElem?_eq_none (Nat.le_of_lt hs),
        List.getElem?_eq_none (by simpa using Nat.succ_le_of_lt hs)]
      simp [h a l.length (Nat.ne_of_lt hs)]

attribute [ext] Nfa

namespace Nfa

open Diagram

variable {n n' : Nfa} {s : Nat}

def stateMoves (state : State) (s : Nat) : List (Nat × Option Symbol × Nat) :=
  (state.edges.edges.map fun e ↦ (s, some e.1, e.2)) ++
    state.epsilons.map fun target ↦ (s, none, target)

def moves (n : Nfa) : List (Nat × Option Symbol × Nat) :=
  n.states.toList.zipIdx.flatMap fun (state, s) ↦ stateMoves state s

/-- All moves are found by trying every symbol of the alphabet and then the
empty moves in every state. -/
theorem WellFormed.moves_eq (h : n.WellFormed) :
    n.moves = (List.range n.stateCount).flatMap fun s ↦
      (n.alphabet.symbols.filterMap fun sym ↦
        (n.edge? s sym).map fun target ↦ (s, some sym, target)) ++
        (n.epsilons s).map fun target ↦ (s, none, target) := by
  rw [stateCount, ← Array.length_toList]
  refine flatMap_zipIdx_eq (f := stateMoves) fun s state hstate ↦ ?_
  have hstate := Array.getElem?_toList.symm.trans hstate
  have hget : n.edge? s = state.edges.get? := by
    funext sym
    rw [edge?, hstate, Option.bind_some]
  have hlabel (e : Symbol × Nat) (he : e ∈ state.edges.edges) : e.1 ∈ n.alphabet := by
    refine h.label_mem s e ?_
    rwa [edges_of_getElem? hstate]
  rw [stateMoves, Row.map_edges hlabel, hget, epsilons_of_getElem? hstate]

def moveLine (e : Nat × Option Symbol × Nat) : List Char := edgeLine e.1 (labelText e.2.1) e.2.2

def finalLine (n : Nfa) : List Char := line ["Final State : ".toList, number n.accept]

theorem WellFormed.text_eq (h : n.WellFormed) :
    n.text = (startLine n.start :: n.finalLine :: n.moves.map moveLine).flatten := by
  rw [text, h.moves_eq, List.map_flatMap, List.flatten_cons, List.flatten_cons, finalLine,
    List.append_assoc]
  simp only [List.map_append, List.map_filterMap, List.map_map, Option.map_map]
  rfl

theorem isLine_finalLine (n : Nfa) : IsLine n.finalLine := by
  refine isLine_line ?_
  simp [newline_not_mem_number]

theorem isLine_moveLine (e : Nat × Option Symbol × Nat) : IsLine (moveLine e) :=
  isLine_edgeLine _ _ _

theorem finalLine_injective (h : n.finalLine = n'.finalLine) : n.accept = n'.accept :=
  number_injective (line_injective h)

theorem moveLine_injective : Function.Injective moveLine := by
  rintro ⟨s, label, target⟩ ⟨s', label', target'⟩ h
  obtain ⟨rfl, rfl, rfl⟩ := edgeLine_injective h
  rfl

theorem WellFormed.moves_eq_of_text_eq (hn : n.WellFormed) (hn' : n'.WellFormed)
    (h : n.text = n'.text) : n.start = n'.start ∧ n.accept = n'.accept ∧ n.moves = n'.moves := by
  rw [hn.text_eq, hn'.text_eq] at h
  obtain ⟨hstart, hfinal, hmoves⟩ :=
    lines_injective n.isLine_finalLine n'.isLine_finalLine isLine_moveLine moveLine_injective h
  exact ⟨hstart, finalLine_injective hfinal, hmoves⟩

def labelledFrom (s : Nat) (e : Nat × Option Symbol × Nat) : Option (Symbol × Nat) :=
  if e.1 = s then e.2.1.map (·, e.2.2) else none

def emptyFrom (s : Nat) (e : Nat × Option Symbol × Nat) : Option Nat :=
  if e.1 = s ∧ e.2.1 = none then some e.2.2 else none

theorem filterMap_labelledFrom (n : Nfa) (s : Nat) :
    n.moves.filterMap (labelledFrom s) = n.edges s := by
  have hstate (state : State) (i : Nat) :
      (stateMoves state i).filterMap (labelledFrom s) =
        if i = s then state.edges.edges else [] := by
    by_cases h : i = s <;> simp [stateMoves, labelledFrom, List.filterMap_map, Function.comp_def, h]
  rw [moves, filterMap_flatMap_zipIdx (f := stateMoves) fun state i hi ↦ by rw [hstate, if_neg hi]]
  simp [edges, hstate]

theorem filterMap_emptyFrom (n : Nfa) (s : Nat) :
    n.moves.filterMap (emptyFrom s) = n.epsilons s := by
  have hstate (state : State) (i : Nat) :
      (stateMoves state i).filterMap (emptyFrom s) = if i = s then state.epsilons else [] := by
    by_cases h : i = s <;> simp [stateMoves, emptyFrom, List.filterMap_map, Function.comp_def, h]
  rw [moves, filterMap_flatMap_zipIdx (f := stateMoves) fun state i hi ↦ by rw [hstate, if_neg hi]]
  simp [epsilons, hstate]

theorem lt_of_move {t : Nat} (h : n.Move s t) : s < n.stateCount := by
  by_contra hlt
  have hnone : n.states[s]? = none := Array.getElem?_eq_none (Nat.not_lt.1 hlt)
  simp [Move, epsilons, edge?, hnone] at h

theorem states_ext (hcount : n.stateCount = n'.stateCount) (hedges : ∀ s, n.edges s = n'.edges s)
    (hepsilons : ∀ s, n.epsilons s = n'.epsilons s) : n.states = n'.states := by
  apply Array.ext hcount
  intro s hs hs'
  have hrow := hedges s
  have hmoves := hepsilons s
  rw [edges_of_getElem? (Array.getElem?_eq_getElem hs),
    edges_of_getElem? (Array.getElem?_eq_getElem hs')] at hrow
  rw [epsilons_of_getElem? (Array.getElem?_eq_getElem hs),
    epsilons_of_getElem? (Array.getElem?_eq_getElem hs')] at hmoves
  generalize n.states[s] = state at *
  generalize n'.states[s] = state' at *
  obtain ⟨⟨edges, increasing⟩, moves⟩ := state
  obtain ⟨⟨edges', increasing'⟩, moves'⟩ := state'
  simp only at hrow hmoves
  subst hrow hmoves
  rfl

theorem Trim.stateCount_le (h : n.Trim) (h' : n'.WellFormed) (haccept : n.accept = n'.accept)
    (hmove : ∀ s t, n.Move s t → n'.Move s t) : n.stateCount ≤ n'.stateCount := by
  by_contra hlt
  -- The first state that `n'` lacks would be the accept state or have a move, and `n'` has both.
  rcases (h.live n'.stateCount (Nat.not_le.1 hlt)).cases_head with heq | ⟨t, hnext, -⟩
  · exact Nat.lt_irrefl _ ((heq.trans haccept).symm ▸ h'.accept_lt)
  · exact Nat.lt_irrefl _ (lt_of_move (hmove _ t hnext))

/-- A trim automaton without idle symbols is determined by its text. -/
theorem Trim.eq_of_text_eq (h : n.Trim) (h' : n'.Trim) (hlabels : n.alphabet.LabelsOf n.edge?)
    (hlabels' : n'.alphabet.LabelsOf n'.edge?) (htext : n.text = n'.text) : n = n' := by
  obtain ⟨hstart, haccept, hmoves⟩ := h.moves_eq_of_text_eq h'.toWellFormed htext
  have hedges (s : Nat) : n.edges s = n'.edges s := by
    rw [← filterMap_labelledFrom, hmoves, filterMap_labelledFrom]
  have hepsilons (s : Nat) : n.epsilons s = n'.epsilons s := by
    rw [← filterMap_emptyFrom, hmoves, filterMap_emptyFrom]
  have hedge : n.edge? = n'.edge? := by
    ext s sym t
    rw [← mem_edges_iff, hedges, mem_edges_iff]
  have hmove (s t : Nat) : n.Move s t ↔ n'.Move s t := by rw [Move, Move, hepsilons, hedge]
  have hcount : n.stateCount = n'.stateCount :=
    Nat.le_antisymm (h.stateCount_le h'.toWellFormed haccept fun s t ↦ (hmove s t).1)
      (h'.stateCount_le h.toWellFormed haccept.symm fun s t ↦ (hmove s t).2)
  exact Nfa.ext hstart haccept (states_ext hcount hedges hepsilons) (hlabels.eq (hedge ▸ hlabels'))

end Nfa

end BytePatterns
