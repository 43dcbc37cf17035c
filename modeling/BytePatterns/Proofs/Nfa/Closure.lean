import BytePatterns.Nfa
import Mathlib.Data.List.Sort
import Mathlib.Logic.Relation

namespace BytePatterns.Nfa

namespace Search

variable {k : Nat} {next : Nat → List Nat} {r : Search k} {s t : Nat}

abbrev Reaches (next : Nat → List Nat) (k : Nat) : Nat → Nat → Prop :=
  Relation.ReflTransGen fun s t ↦ t ∈ next s ∧ t < k

def Found (r : Search k) (s : Nat) : Prop := r.found[s]? = some true

theorem found_meet : (r.meet s).Found t ↔ r.Found t ∨ t = s ∧ s < k := by
  unfold meet
  split
  · rename_i hs
    split
    · rename_i hr
      refine ⟨.inl, ?_⟩
      intro h'
      rcases h' with h | ⟨rfl, -⟩
      · exact h
      · simpa [Found, hs] using hr
    · simp only [Found, Vector.getElem?_set]
      by_cases hts : s = t
      · simp [hts, hts ▸ hs]
      · simp [hts, Ne.symm hts]
  · rename_i hs
    simp [hs]

theorem pending_meet (h : t ∈ r.pending) : t ∈ (r.meet s).pending := by
  unfold meet
  split
  · split
    · exact h
    · exact List.mem_cons_of_mem _ h
  · exact h

theorem found_or_pending_of_meet (h : (r.meet s).Found t) : r.Found t ∨ t ∈ (r.meet s).pending := by
  rcases found_meet.1 h with h | ⟨rfl, hs⟩
  · exact .inl h
  · by_cases hr : r.found[t]
    · exact .inl (by simpa [Found, hs] using hr)
    · exact .inr (by simp [meet, hs, hr])

theorem found_meetAll {states : List Nat} :
    (r.meetAll states).Found t ↔ r.Found t ∨ t ∈ states ∧ t < k := by
  induction states generalizing r with
  | nil => simp [meetAll]
  | cons s rest ih =>
    refine (ih (r := r.meet s)).trans ?_
    rw [found_meet, List.mem_cons]
    constructor
    · intro h'
      rcases h' with (h | ⟨rfl, hs⟩) | ⟨h, ht⟩
      · exact .inl h
      · exact .inr ⟨.inl rfl, hs⟩
      · exact .inr ⟨.inr h, ht⟩
    · intro h'
      rcases h' with h | ⟨rfl | h, ht⟩
      · exact .inl (.inl h)
      · exact .inl (.inr ⟨rfl, ht⟩)
      · exact .inr ⟨h, ht⟩

theorem pending_meetAll {states : List Nat} (h : t ∈ r.pending) :
    t ∈ (r.meetAll states).pending := by
  induction states generalizing r with
  | nil => exact h
  | cons s rest ih => exact ih (pending_meet h)

theorem found_or_pending_of_meetAll {states : List Nat} (h : (r.meetAll states).Found t) :
    r.Found t ∨ t ∈ (r.meetAll states).pending := by
  induction states generalizing r with
  | nil => exact .inl h
  | cons s rest ih =>
    rcases ih h with h | h
    · exact (found_or_pending_of_meet h).imp_right fun hpending ↦
        (pending_meetAll hpending : t ∈ ((r.meet s).meetAll rest).pending)
    · exact .inr h

/-- The pending states are found, and every other found state has been followed. -/
structure Settled (next : Nat → List Nat) (r : Search k) : Prop where
  known : ∀ s ∈ r.pending, r.Found s
  followed : ∀ s, r.Found s → s ∉ r.pending → ∀ t ∈ next s, t < k → r.Found t

theorem known_meet (h : ∀ u ∈ r.pending, r.Found u) :
    ∀ u ∈ (r.meet s).pending, (r.meet s).Found u := by
  intro u hu
  refine found_meet.2 ?_
  unfold meet at hu
  split at hu
  · rename_i hs
    split at hu
    · exact .inl (h u hu)
    · rcases List.mem_cons.1 hu with rfl | hu
      · exact .inr ⟨rfl, hs⟩
      · exact .inl (h u hu)
  · exact .inl (h u hu)

theorem known_meetAll {states : List Nat} (h : ∀ u ∈ r.pending, r.Found u) :
    ∀ u ∈ (r.meetAll states).pending, (r.meetAll states).Found u := by
  induction states generalizing r with
  | nil => exact h
  | cons s rest ih => exact ih (known_meet h)

theorem Settled.follow {found : Vector Bool k} {pending : List Nat}
    (h : Settled next ⟨found, s :: pending⟩) :
    Settled next (meetAll ⟨found, pending⟩ (next s)) where
  known := known_meetAll fun u hu ↦ h.known u (List.mem_cons_of_mem _ hu)
  followed := by
    intro u hu hpending t ht htk
    refine found_meetAll.2 ?_
    rcases found_or_pending_of_meetAll hu with hu | hu
    · by_cases hus : u = s
      · exact .inr ⟨hus ▸ ht, htk⟩
      · refine .inl (h.followed u hu (fun hmem ↦ ?_) t ht htk)
        exact hpending (pending_meetAll ((List.mem_cons.1 hmem).resolve_left hus))
    · exact absurd hu hpending

def empty (k : Nat) : Search k := ⟨Vector.replicate k false, []⟩

theorem not_found_empty : ¬(empty k).Found s := by
  simp [empty, Found, Vector.getElem?_replicate]

theorem settled_meetAll_empty (next : Nat → List Nat) (seeds : List Nat) :
    Settled next ((empty k).meetAll seeds) where
  known := known_meetAll fun _ hs ↦ absurd hs List.not_mem_nil
  followed _ hs hpending :=
    absurd ((found_or_pending_of_meetAll hs).resolve_left not_found_empty) hpending

/-- A completed search has found what the states found at first reach. -/
theorem getElem?_complete_iff (h : Settled next r) :
    (complete next r)[t]? = some true ↔ ∃ s, r.Found s ∧ Reaches next k s t := by
  fun_induction complete next r with
  | case1 found =>
    constructor
    · exact fun ht ↦ ⟨t, ht, .refl⟩
    · intro h'
      obtain ⟨s, hs, hreach⟩ := h'
      induction hreach with
      | refl => exact hs
      | tail _ hmove ih => exact h.followed _ ih List.not_mem_nil _ hmove.1 hmove.2
  | case2 found s pending ih =>
    have hs : Found ⟨found, s :: pending⟩ s := h.known s List.mem_cons_self
    rw [ih h.follow]
    constructor
    · intro h'
      obtain ⟨u, hu, hreach⟩ := h'
      rcases found_meetAll.1 hu with hu | hu
      · exact ⟨u, hu, hreach⟩
      · exact ⟨s, hs, .head hu hreach⟩
    · intro h'
      obtain ⟨u, hu, hreach⟩ := h'
      exact ⟨u, found_meetAll.2 (.inl hu), hreach⟩

end Search

variable (n : Nfa) {s t : Nat}

theorem mem_membersBelow {marks : Array Bool} {bound : Nat} {set : List Nat} :
    s ∈ membersBelow marks bound set ↔ s < bound ∧ marks[s]? = some true ∨ s ∈ set := by
  cases h : marks[s]? <;> simp [membersBelow_eq, h]

theorem mem_closure {seeds : List Nat} : s ∈ n.closure seeds ↔ s < n.stateCount ∧
    (((Search.empty n.stateCount).meetAll seeds).complete n.epsilons)[s]? = some true := by
  rw [closure, mem_membersBelow, Vector.getElem?_toArray]
  simp only [List.not_mem_nil, or_false]
  rfl

theorem closure_sublist (seeds : List Nat) :
    (n.closure seeds).Sublist (List.range n.stateCount) := by
  rw [closure, membersBelow_eq, List.append_nil]
  exact List.filter_sublist

theorem closure_increasing (seeds : List Nat) : (n.closure seeds).Pairwise (· < ·) :=
  List.pairwise_lt_range.sublist (n.closure_sublist seeds)

theorem mem_closure_iff_searchReaches {seeds : List Nat} :
    t ∈ n.closure seeds ↔
      ∃ s ∈ seeds, s < n.stateCount ∧ Search.Reaches n.epsilons n.stateCount s t := by
  have hlt {s t : Nat} (h : s < n.stateCount)
      (hreach : Search.Reaches n.epsilons n.stateCount s t) :
      t < n.stateCount := by
    cases hreach with
    | refl => exact h
    | tail _ hmove => exact hmove.2
  have hsettled := Search.settled_meetAll_empty (k := n.stateCount) n.epsilons seeds
  rw [mem_closure, Search.getElem?_complete_iff hsettled]
  simp only [Search.found_meetAll, Search.not_found_empty, false_or]
  constructor
  · intro h'
    obtain ⟨-, s, ⟨hs, hsk⟩, hreach⟩ := h'
    exact ⟨s, hs, hsk, hreach⟩
  · intro h'
    obtain ⟨s, hs, hsk, hreach⟩ := h'
    exact ⟨hlt hsk hreach, s, ⟨hs, hsk⟩, hreach⟩

abbrev Reaches : Nat → Nat → Prop := Relation.ReflTransGen fun s t ↦ t ∈ n.epsilons s

variable {n}

theorem lt_of_mem_closure {seeds : List Nat} (h : s ∈ n.closure seeds) : s < n.stateCount :=
  List.mem_range.1 ((n.closure_sublist seeds).subset h)

theorem mem_closure_iff (h : ∀ s, ∀ t ∈ n.epsilons s, t < n.stateCount) {seeds : List Nat} :
    t ∈ n.closure seeds ↔ ∃ s ∈ seeds, s < n.stateCount ∧ n.Reaches s t := by
  have hreaches (s t : Nat) : Search.Reaches n.epsilons n.stateCount s t ↔ n.Reaches s t :=
    ⟨Relation.ReflTransGen.mono (fun _ _ hmove ↦ hmove.1) s t,
      Relation.ReflTransGen.mono (fun _ _ hmove ↦ ⟨hmove, h _ _ hmove⟩) s t⟩
  simp only [mem_closure_iff_searchReaches, hreaches]

end BytePatterns.Nfa
