import BytePatterns.Checked
import BytePatterns.Proofs.Nfa.Fragment
import Mathlib.Data.Finset.Card

namespace BytePatterns.Nfa

structure Worklist where
  found : Finset Nat
  waiting : List Nat

namespace Worklist

def begin (set : StateSet) : Worklist := ⟨set.toFinset, set.reverse⟩

def meet (w : Worklist) (s : Nat) : Worklist :=
  if s ∈ w.found then w else ⟨insert s w.found, s :: w.waiting⟩

def meetAll (w : Worklist) (states : List Nat) : Worklist := states.foldl meet w

/-- After so many steps, each of which follows the moves of a state that
exists, no state waits any more. -/
inductive Ends (n : Nfa) : Nat → Worklist → Finset Nat → Prop
  | done (found : Finset Nat) : Ends n 0 ⟨found, []⟩ found
  | follow {steps s : Nat} {found result : Finset Nat} {waiting : List Nat} {state : State} :
      n.states[s]? = some state → Ends n steps (meetAll ⟨found, waiting⟩ state.epsilons) result →
        Ends n (steps + 1) ⟨found, s :: waiting⟩ result

variable {n : Nfa} {w : Worklist} {steps steps' : Nat} {result result' : Finset Nat}

theorem Ends.unique (h : Ends n steps w result) (h' : Ends n steps' w result') :
    steps = steps' ∧ result = result' := by
  induction h generalizing steps' with
  | done found =>
    cases h'
    exact ⟨rfl, rfl⟩
  | follow hstate _ ih =>
    cases h' with
    | follow hstate' hrest =>
      obtain rfl := Option.some.inj (hstate.symm.trans hstate')
      obtain ⟨rfl, rfl⟩ := ih hrest
      exact ⟨rfl, rfl⟩

theorem waiting_subset_meetAll (w : Worklist) (states : List Nat) :
    w.waiting ⊆ (w.meetAll states).waiting := by
  induction states generalizing w with
  | nil => exact List.Subset.refl _
  | cons s rest ih =>
    have hmeet : w.waiting ⊆ (w.meet s).waiting := by
      unfold meet
      split
      · exact List.Subset.refl _
      · exact List.subset_cons_self _ _
    exact List.Subset.trans hmeet (ih (w.meet s))

theorem Ends.lt_of_waiting (h : Ends n steps w result) : ∀ s ∈ w.waiting, s < n.stateCount := by
  induction h with
  | done found => exact List.forall_mem_nil _
  | follow hstate _ ih =>
    refine List.forall_mem_cons.2 ⟨(Array.getElem?_eq_some_iff.1 hstate).1, fun t ht ↦ ?_⟩
    exact ih t (waiting_subset_meetAll _ _ ht)

theorem card_found_meetAll (w : Worklist) (states : List Nat) :
    (w.meetAll states).found.card + w.waiting.length =
      w.found.card + (w.meetAll states).waiting.length := by
  induction states generalizing w with
  | nil => rfl
  | cons s rest ih =>
    -- a state that is found begins to wait at the same time
    have hmeet :
        (w.meet s).found.card + w.waiting.length = w.found.card + (w.meet s).waiting.length := by
      unfold meet
      split
      · rfl
      · rename_i hs
        rw [Finset.card_insert_of_notMem hs, List.length_cons]
        omega
    have hrest := ih (w.meet s)
    simp only [meetAll, List.foldl_cons] at hrest ⊢
    omega

/-- So many steps are left as there are states that wait or are still to be found. -/
theorem Ends.steps_add_card (h : Ends n steps w result) :
    steps + w.found.card = result.card + w.waiting.length := by
  induction h with
  | done found => exact Nat.add_comm _ _
  | @follow _ _ found _ waiting state _ _ ih =>
    have hcard := card_found_meetAll ⟨found, waiting⟩ state.epsilons
    simp only [List.length_cons] at hcard ih ⊢
    omega

theorem meetAll_of_nodup {states : List Nat} (hnodup : states.Nodup)
    (hnew : ∀ s ∈ states, s ∉ w.found) :
    w.meetAll states = ⟨states.toFinset ∪ w.found, states.reverse ++ w.waiting⟩ := by
  induction states generalizing w with
  | nil => simp [meetAll]
  | cons s rest ih =>
    obtain ⟨hs, hrest⟩ := List.nodup_cons.1 hnodup
    obtain ⟨hsnew, hrestnew⟩ := List.forall_mem_cons.1 hnew
    have hmeet : w.meet s = ⟨insert s w.found, s :: w.waiting⟩ := if_neg hsnew
    have hrestnew' : ∀ t ∈ rest, t ∉ insert s w.found := by
      intro t ht hmem
      rcases Finset.mem_insert.1 hmem with rfl | hmem
      · exact hs ht
      · exact hrestnew t ht hmem
    rw [meetAll, List.foldl_cons, hmeet, ← meetAll, ih hrest hrestnew']
    simp

end Worklist

namespace Search

variable {k : Nat} {r : Search k} {s : Nat}

def marked (found : Vector Bool k) : Finset Nat :=
  (Finset.range k).filter fun s ↦ found[s]? = some true

theorem mem_marked {found : Vector Bool k} : s ∈ marked found ↔ found[s]? = some true := by
  rw [marked, Finset.mem_filter, Finset.mem_range, and_iff_right_iff_imp]
  intro hs
  obtain ⟨hlt, -⟩ := Vector.getElem?_eq_some_iff.1 hs
  exact hlt

def worklist (r : Search k) : Worklist := ⟨marked r.found, r.pending⟩

theorem worklist_meet (hs : s < k) : (r.meet s).worklist = r.worklist.meet s := by
  have hfound : marked (r.meet s).found = insert s (marked r.found) := by
    ext t
    rw [Finset.mem_insert, mem_marked, mem_marked]
    exact found_meet.trans (by rw [Found, and_iff_left hs, or_comm])
  by_cases hr : r.found[s]
  · have hmem : s ∈ r.worklist.found := mem_marked.2 (by simp [hs, hr])
    rw [Worklist.meet, if_pos hmem]
    simp [meet, hs, hr]
  · have hmem : s ∉ r.worklist.found := fun hmem ↦ hr (by simpa [hs] using mem_marked.1 hmem)
    rw [Worklist.meet, if_neg hmem, worklist, hfound]
    simp [meet, hs, hr, worklist]

theorem worklist_meetAll {states : List Nat} (h : ∀ s ∈ states, s < k) :
    (r.meetAll states).worklist = r.worklist.meetAll states := by
  induction states generalizing r with
  | nil => rfl
  | cons s rest ih =>
    obtain ⟨hs, hrest⟩ := List.forall_mem_cons.1 h
    refine (ih hrest).trans ?_
    rw [worklist_meet hs]
    rfl

theorem marked_empty (k : Nat) : marked (empty k).found = ∅ :=
  Finset.eq_empty_of_forall_notMem fun _ hs ↦ not_found_empty (mem_marked.1 hs)

theorem worklist_meetAll_empty {set : StateSet} (hnodup : set.Nodup) (hset : ∀ s ∈ set, s < k) :
    ((empty k).meetAll set).worklist = .begin set := by
  rw [worklist_meetAll hset, worklist, marked_empty, Worklist.meetAll_of_nodup hnodup (by simp)]
  simp [empty, Worklist.begin]

variable {n : Nfa}

theorem exists_ends (hrange : ∀ s, ∀ t ∈ n.epsilons s, t < n.stateCount) (r : Search n.stateCount)
    (known : ∀ s ∈ r.pending, r.Found s) :
    ∃ steps, Worklist.Ends n steps r.worklist (marked (r.complete n.epsilons)) := by
  fun_induction complete n.epsilons r with
  | case1 found => exact ⟨0, .done _⟩
  | case2 found s pending ih =>
    obtain ⟨hs, -⟩ := Vector.getElem?_eq_some_iff.1 (known s List.mem_cons_self)
    have hstate : n.states[s]? = some n.states[s] := Array.getElem?_eq_getElem hs
    obtain ⟨steps, hends⟩ := ih (known_meetAll fun u hu ↦ known u (List.mem_cons_of_mem _ hu))
    have hfollow : (meetAll ⟨found, pending⟩ (n.epsilons s)).worklist =
        (worklist ⟨found, pending⟩).meetAll n.states[s].epsilons := by
      rw [worklist_meetAll (hrange s), epsilons_of_getElem? hstate]
    rw [hfollow] at hends
    exact ⟨steps + 1, .follow hstate hends⟩

theorem toFinset_closure (n : Nfa) (set : StateSet) :
    (n.closure set).toFinset = marked (((empty n.stateCount).meetAll set).complete n.epsilons) := by
  ext s
  rw [List.mem_toFinset, mem_closure, marked, Finset.mem_filter, Finset.mem_range]

end Search

variable {n : Nfa} {set set' : StateSet} {t : Nat}

def HasStates (n : Nfa) (set : StateSet) : Prop := ∀ s ∈ set, s < n.stateCount

theorem hasStates_closure (n : Nfa) (seeds : List Nat) : n.HasStates (n.closure seeds) :=
  fun _ ↦ lt_of_mem_closure

section closes

variable (hrange : ∀ s, ∀ t ∈ n.epsilons s, t < n.stateCount)
include hrange

theorem worklist_ends (hset : n.HasStates set) (hnodup : set.Nodup) :
    Worklist.Ends n (n.closure set).length (.begin set) (n.closure set).toFinset := by
  obtain ⟨steps, hends⟩ :=
    Search.exists_ends hrange _ (Search.settled_meetAll_empty n.epsilons set).known
  rw [Search.worklist_meetAll_empty hnodup hset, ← Search.toFinset_closure] at hends
  have hsteps := hends.steps_add_card
  rw [Worklist.begin, List.toFinset_card_of_nodup hnodup, List.length_reverse,
    List.toFinset_card_of_nodup (n.closure_increasing set).nodup] at hsteps
  obtain rfl : steps = (n.closure set).length := Nat.add_right_cancel hsteps
  exact hends

theorem worklist_ends_iff (hset : n.HasStates set) (hnodup : set.Nodup) {steps : Nat}
    {found : Finset Nat} :
    Worklist.Ends n steps (.begin set) found ↔
      steps = (n.closure set).length ∧ found = (n.closure set).toFinset := by
  have hends := worklist_ends hrange hset hnodup
  refine ⟨fun h ↦ h.unique hends, fun h ↦ ?_⟩
  obtain ⟨rfl, rfl⟩ := h
  exact hends

/-- A list has a closure if and only if its worklist ends, which it does not if a state is
missing. -/
theorem closureOf?_isSome_iff (hnodup : set.Nodup) :
    (n.closureOf? set).isSome ↔ ∃ steps found, Worklist.Ends n steps (.begin set) found := by
  have hsome : (n.closureOf? set).isSome ↔ n.HasStates set := by
    unfold closureOf? answerAbout
    split
    · rename_i hset
      exact iff_of_true rfl hset
    · rename_i hset
      exact iff_of_false Bool.false_ne_true hset
  rw [hsome]
  refine ⟨fun hset ↦ ⟨_, _, worklist_ends hrange hset hnodup⟩, fun h ↦ ?_⟩
  obtain ⟨steps, found, hends⟩ := h
  exact fun s hs ↦ hends.lt_of_waiting s (List.mem_reverse.2 hs)

theorem HasStates.mem_closure_iff (hset : n.HasStates set) :
    t ∈ n.closure set ↔ ∃ s ∈ set, n.Reaches s t := by
  rw [Nfa.mem_closure_iff hrange]
  refine exists_congr fun s ↦ and_congr_right fun hs ↦ ?_
  exact and_iff_right (hset s hs)

theorem HasStates.subset_closure (hset : n.HasStates set) : set ⊆ n.closure set :=
  fun s hs ↦ (hset.mem_closure_iff hrange).2 ⟨s, hs, .refl⟩

theorem HasStates.closure_closure (hset : n.HasStates set) :
    n.closure (n.closure set) = n.closure set := by
  refine (n.closure_increasing _).eq_of_mem_iff (n.closure_increasing _) fun t ↦
    ⟨fun ht ↦ ?_, fun ht ↦ ?_⟩
  · obtain ⟨s, hs, hst⟩ := ((n.hasStates_closure set).mem_closure_iff hrange).1 ht
    obtain ⟨r, hr, hrs⟩ := (hset.mem_closure_iff hrange).1 hs
    exact (hset.mem_closure_iff hrange).2 ⟨r, hr, hrs.trans hst⟩
  · exact (n.hasStates_closure set).subset_closure hrange ht

theorem HasStates.closure_mono (hset : n.HasStates set') (hsub : set ⊆ set') :
    n.closure set ⊆ n.closure set' := by
  have hset' : n.HasStates set := fun s hs ↦ hset s (hsub hs)
  intro t ht
  obtain ⟨s, hs, hst⟩ := (hset'.mem_closure_iff hrange).1 ht
  exact (hset.mem_closure_iff hrange).2 ⟨s, hsub hs, hst⟩

theorem HasStates.toFinset_closure_union (hset : n.HasStates set) (hset' : n.HasStates set') :
    (n.closure (set ∪ set')).toFinset = (n.closure set).toFinset ∪ (n.closure set').toFinset := by
  have hunion : n.HasStates (set ∪ set') :=
    fun s hs ↦ (List.mem_union_iff.1 hs).elim (hset s) (hset' s)
  ext t
  rw [Finset.mem_union, List.mem_toFinset, List.mem_toFinset, List.mem_toFinset,
    hunion.mem_closure_iff hrange, hset.mem_closure_iff hrange, hset'.mem_closure_iff hrange]
  simp only [List.mem_union_iff, or_and_right, exists_or]

end closes

structure ClosesSets (n : Nfa) : Prop where
  ends_iff : ∀ set, n.HasStates set → set.Nodup → ∀ steps found,
    Worklist.Ends n steps (.begin set) found ↔
    steps = (n.closure set).length ∧ found = (n.closure set).toFinset
  increasing : ∀ set, (n.closure set).Pairwise (· < ·)
  mem_iff : ∀ set, n.HasStates set → ∀ t, t ∈ n.closure set ↔ ∃ s ∈ set, n.Reaches s t
  extensive : ∀ set, n.HasStates set → set ⊆ n.closure set
  idempotent : ∀ set, n.HasStates set → n.closure (n.closure set) = n.closure set
  monotone : ∀ set set', n.HasStates set' → set ⊆ set' → n.closure set ⊆ n.closure set'
  union : ∀ set set', n.HasStates set → n.HasStates set' →
    (n.closure (set ∪ set')).toFinset = (n.closure set).toFinset ∪ (n.closure set').toFinset

/-- If empty moves lead to states only, cycles of them included, then the worklist of every set of
states ends with its closure, which holds what empty moves lead to from the set. -/
theorem closesSets (hrange : ∀ s, ∀ t ∈ n.epsilons s, t < n.stateCount) : n.ClosesSets where
  ends_iff _ hset hnodup _ _ := worklist_ends_iff hrange hset hnodup
  increasing := n.closure_increasing
  mem_iff _ hset _ := hset.mem_closure_iff hrange
  extensive _ hset := hset.subset_closure hrange
  idempotent _ hset := hset.closure_closure hrange
  monotone _ _ hset hsub := hset.closure_mono hrange hsub
  union _ _ hset hset' := hset.toFinset_closure_union hrange hset'

def starOfStar : Nfa := (Tree.star (.star (.byte 97))).toNfa

/-- The start and the accept state of the inner star lie on a cycle of empty moves. -/
theorem closesSets_starOfStar : (∀ s, ∀ t ∈ starOfStar.epsilons s, t < starOfStar.stateCount) ∧
    starOfStar.ClosesSets ∧ starOfStar.Reaches 2 3 ∧ starOfStar.Reaches 3 2 ∧
      starOfStar.closure [1] = [0, 1, 2, 3, 5] := by
  have hrange : ∀ s, ∀ t ∈ starOfStar.epsilons s, t < starOfStar.stateCount :=
    (Tree.toNfa_wellFormed _).epsilon_lt
  refine ⟨hrange, closesSets hrange, .single ?_, .single ?_, ?_⟩
  · decide +kernel
  · decide +kernel
  · decide +kernel

end BytePatterns.Nfa
