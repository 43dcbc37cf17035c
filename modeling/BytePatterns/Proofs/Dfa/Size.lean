import BytePatterns.Proofs.Dfa.Quotient
import Mathlib.Algebra.BigOperators.Group.Finset.Basic
import Mathlib.Algebra.Order.BigOperators.Group.Finset

namespace BytePatterns.Dfa

variable {d d' : Dfa} {s t k : Nat} {sym : Symbol} {b : UInt8}

def row (d : Dfa) (s : Nat) : Row Nat := (d.states[s]?.map State.edges).getD .empty

theorem get?_row (d : Dfa) (s : Nat) (sym : Symbol) : (d.row s).get? sym = d.edge? s sym := by
  rw [row, edge?]
  cases d.states[s]? <;> rfl

theorem foldl_add_eq_sum {α : Type} (f : α → Nat) (l : List α) (m : Nat) :
    l.foldl (fun count a ↦ count + f a) m = m + ∑ i ∈ Finset.range l.length,
    (l[i]?.map f).getD 0 := by
  induction l generalizing m with
  | nil => simp
  | cons a rest ih =>
    rw [List.foldl_cons, ih, List.length_cons, Finset.sum_range_succ']
    simp only [List.getElem?_cons_succ, List.getElem?_cons_zero, Option.map_some, Option.getD_some]
    omega

theorem edgeCount_eq_sum (d : Dfa) :
    d.edgeCount = ∑ s ∈ Finset.range d.stateCount, (d.row s).size := by
  rw [edgeCount, ← Array.foldl_toList, foldl_add_eq_sum (fun state : State ↦ state.edges.size),
    Nat.zero_add]
  refine Finset.sum_congr rfl fun s _ ↦ ?_
  rw [Array.getElem?_toList, row]
  cases d.states[s]? <;> rfl

/-- If the states of one automaton go to different states of the other one that have edges with the
same labels, it has no more states and no more edges. -/
theorem size_le_of_injective (image : Nat → Nat) (hlt : ∀ k < d.stateCount, image k < d'.stateCount)
    (hinj : ∀ k < d.stateCount, ∀ j < d.stateCount, image k = image j → k = j)
    (hedge : ∀ k < d.stateCount, ∀ sym t, d.edge? k sym = some t →
      ∃ t', d'.edge? (image k) sym = some t') :
    d.stateCount ≤ d'.stateCount ∧ d.edgeCount ≤ d'.edgeCount := by
  have hmaps : (Finset.range d.stateCount).image image ⊆ Finset.range d'.stateCount := by
    intro s hs
    obtain ⟨k, hk, rfl⟩ := Finset.mem_image.1 hs
    exact Finset.mem_range.2 (hlt k (Finset.mem_range.1 hk))
  have hinjOn : Set.InjOn image (Finset.range d.stateCount) := fun k hk j hj ↦
    hinj k (Finset.mem_range.1 hk) j (Finset.mem_range.1 hj)
  constructor
  · have hcard := Finset.card_le_card hmaps
    rwa [Finset.card_image_of_injOn hinjOn, Finset.card_range, Finset.card_range] at hcard
  · calc d.edgeCount = ∑ k ∈ Finset.range d.stateCount, (d.row k).size := d.edgeCount_eq_sum
      _ ≤ ∑ k ∈ Finset.range d.stateCount, (d'.row (image k)).size := by
        refine Finset.sum_le_sum fun k hk ↦ Row.size_le_of_labels fun sym t ht ↦ ?_
        rw [get?_row] at ht ⊢
        exact hedge k (Finset.mem_range.1 hk) sym t ht
      _ = ∑ s ∈ (Finset.range d.stateCount).image image, (d'.row s).size := by
        rw [Finset.sum_image hinjOn]
      _ ≤ ∑ s ∈ Finset.range d'.stateCount, (d'.row s).size := Finset.sum_le_sum_of_subset hmaps
      _ = d'.edgeCount := d'.edgeCount_eq_sum.symm

theorem WellFormed.edge?_minimize_any_ne (h : d.WellFormed)
    (hedge : d.minimize.edge? k (.byte b) = some t) :
    d.minimize.edge? k .any ≠ some t := by
  intro hany
  rcases (h.edge?_minimize.1 hedge).2 with heq | hne
  · cases heq
  · exact hne (h.edge?_minimize.1 hany).1

theorem WellFormed.exists_edge?_of_minimize (h : d.WellFormed) (hs : s ∈ d.blockMembers k)
    (hedge : d.minimize.edge? k sym = some t) : ∃ t', d.edge? s sym = some t' := by
  obtain ⟨hlt, hk⟩ := hs
  obtain ⟨t', ht', -, hnode⟩ :=
    exists_left_of_rel (h.follow_rel_minimize hlt hk sym) (follow?_of_edge? hedge)
  cases sym with
  | any => exact ⟨t', ht'⟩
  | byte b =>
    rcases Option.or_eq_some_iff.1 ht' with hown | ⟨-, hany⟩
    · exact ⟨t', hown⟩
    -- if the member took the edge of `any`, the quotient would have left out the byte
    · obtain ⟨u, hu, -, hnode'⟩ := exists_right_of_rel (h.follow_rel_minimize hlt hk .any) hany
      obtain rfl : t = u := numberedBlocks_valid.coherent.index_inj hnode hnode'
      exact absurd hu (h.edge?_minimize_any_ne hedge)

structure ShrinksTo (d d' : Dfa) : Prop where
  stateCount_le : d'.stateCount ≤ d.stateCount
  edgeCount_le : d'.edgeCount ≤ d.edgeCount
  any_ne : ∀ k b t, d'.edge? k (.byte b) = some t → d'.edge? k .any ≠ some t

theorem WellFormed.shrinksTo_minimize (h : d.WellFormed) : d.ShrinksTo d.minimize := by
  have hmember (k : Nat) : ∃ s, k < d.minimize.stateCount → s ∈ d.blockMembers k := by
    by_cases hk : k < d.minimize.stateCount
    · obtain ⟨s, hs⟩ := h.exists_member_minimize hk
      exact ⟨s, fun _ ↦ hs⟩
    · exact ⟨0, fun hk' ↦ absurd hk' hk⟩
  choose member hmember using hmember
  have hsizes : d.minimize.stateCount ≤ d.stateCount ∧ d.minimize.edgeCount ≤ d.edgeCount := by
    refine size_le_of_injective member (fun k hk ↦ (hmember k hk).1) ?_ ?_
    · intro k hk j hj heq
      exact eq_of_mem_blockMembers (hmember k hk) (heq ▸ hmember j hj)
    · intro k hk sym t hedge
      exact h.exists_edge?_of_minimize (hmember k hk) hedge
  exact ⟨hsizes.1, hsizes.2, fun _ _ _ ↦ h.edge?_minimize_any_ne⟩

/-- The automaton accepts after `a` as it does after other bytes, except that `b` leads back to the
start, and no edge leads to the last state. -/
def redundantLetter : Dfa where
  start := 0
  states := #[⟨false, ⟨[(.byte 97, 1), (.byte 98, 0), (.any, 2)], by decide⟩⟩, ⟨true, .empty⟩,
    ⟨true, .empty⟩, ⟨true, .single (.byte 97) 0⟩]
  alphabet := .ofList [.byte 97, .byte 98, .any]

theorem shrinksTo_minimize_redundantLetter :
    redundantLetter.WellFormed ∧ redundantLetter.ShrinksTo redundantLetter.minimize :=
  ⟨by decide, WellFormed.shrinksTo_minimize (by decide)⟩

end BytePatterns.Dfa
