import BytePatterns.Dfa.Subset
import BytePatterns.Proofs.Dfa.Run
import BytePatterns.Proofs.Interning
import BytePatterns.Proofs.Nfa.Residue
import Mathlib.Data.List.Sublists

namespace BytePatterns.Nfa

variable {n : Nfa} {set : StateSet} {sym : Symbol} {k : Nat}

theorem length_closures_le (l : List StateSet) (nodup : l.Nodup)
    (h : ∀ a ∈ l, ∃ b, n.closure b = a) :
    l.length ≤ Nat.pow 2 n.stateCount := by
  have hsubset : l ⊆ (List.range n.stateCount).sublists := by
    intro a ha
    obtain ⟨b, rfl⟩ := h a ha
    exact List.mem_sublists.2 (n.closure_sublist b)
  have hle := (nodup.subperm hsubset).length_le
  rwa [List.length_sublists, List.length_range] at hle

theorem subsets_valid : Exploration.Valid n.subsetRow n.closure n.subsets :=
  explore_valid n.subsetRow n.closure _ [n.start]

theorem subsets_start : n.subsets.nodes[0]? = some n.initial :=
  explore_start n.subsetRow n.closure _ [n.start]

theorem subsets_complete : n.subsets.rows.size = n.subsets.nodes.size :=
  explore_complete n.subsetRow n.closure [n.start] length_closures_le

theorem states_toDfa (h : n.subsets.nodes[k]? = some set) :
    ∃ r, n.subsets.rows[k]? = some r ∧ n.toDfa.states[k]? = some ⟨n.isAccepting set, r⟩ := by
  have hk : k < n.subsets.rows.size :=
    subsets_complete.symm ▸ (Array.getElem?_eq_some_iff.1 h).1
  have hr : n.subsets.rows[k]? = some n.subsets.rows[k] := Array.getElem?_eq_getElem hk
  refine ⟨_, hr, ?_⟩
  simp only [toDfa, subsetDfa, Array.getElem?_zipWith, h, hr]

theorem stateCount_toDfa : n.toDfa.stateCount = n.subsets.nodes.size := by
  simp [Dfa.stateCount, toDfa, subsetDfa, subsets_complete]

/-- The search that numbers the sets one at a time is over, with all of them or
with what the limit allows. -/
def Numbered (n : Nfa) (limit : Option Nat)
    (r : Except (Exploration StateSet Seeds) (Exploration StateSet Seeds)) : Prop :=
  Exploration.Search n.subsetRow n.closure limit
    (Exploration.empty.intern n.closure limit [n.start]) r

theorem numbered_subsetsWithin (n : Nfa) (limit : Option Nat) :
    n.Numbered limit (n.subsetsWithin limit) :=
  search_exploreWithin n.subsetRow n.closure limit [n.start] length_closures_le

theorem subsetsWithin_some (n : Nfa) (most : Nat) :
    Exploration.Within most n.subsets (n.subsetsWithin (some most)) :=
  exploreWithin_within n.subsetRow n.closure most _ [n.start]

/-- With a limit the search fails if and only if there are more sets than allowed, and then as
many are numbered as allowed. -/
theorem toDfaWithin_some (n : Nfa) (most : Nat) : n.toDfaWithin (some most) =
    if n.toDfa.stateCount ≤ most then .ok n.toDfa else .error ⟨most + 1, most⟩ := by
  rw [stateCount_toDfa, toDfaWithin]
  rcases Nat.lt_or_ge most n.subsets.nodes.size with hmore | hfits
  · obtain ⟨found, hfound, hsize, -⟩ := (n.subsetsWithin_some most).exists_error hmore
    rw [hfound, if_neg (Nat.not_le_of_lt hmore), ← hsize]
  · rw [(n.subsetsWithin_some most).eq_ok hfits, if_pos hfits, toDfa]

theorem exists_refused {most : Nat} (h : most < n.toDfa.stateCount) :
    ∃ found, n.Numbered (some most) (.error found) ∧ found.nodes.size = most := by
  rw [stateCount_toDfa] at h
  obtain ⟨found, hfound, hsize, -⟩ := (n.subsetsWithin_some most).exists_error h
  exact ⟨found, hfound ▸ n.numbered_subsetsWithin (some most), hsize⟩

theorem exists_set (h : k < n.toDfa.stateCount) : ∃ set, n.subsets.nodes[k]? = some set :=
  ⟨_, Array.getElem?_eq_getElem (stateCount_toDfa ▸ h)⟩

theorem isAccepting_toDfa (h : n.subsets.nodes[k]? = some set) :
    n.toDfa.isAccepting k = n.isAccepting set := by
  obtain ⟨r, -, hstate⟩ := states_toDfa h
  simp [Dfa.isAccepting, hstate]

theorem edge?_toDfa (h : n.subsets.nodes[k]? = some set) (sym : Symbol) :
    n.toDfa.edge? k sym = Exploration.edge? n.subsets.rows k sym := by
  obtain ⟨r, hr, hstate⟩ := states_toDfa h
  simp [Dfa.edge?, Exploration.edge?, hstate, hr]

theorem map_seedsOf? (set : StateSet) (sym : Symbol) :
    (seedsOf? (set.flatMap n.edges) sym).map n.closure = n.next? set sym := by
  unfold seedsOf? next? moved
  cases targets (set.flatMap n.edges) sym <;> rfl

theorem edge_rel (h : n.subsets.nodes[k]? = some set) (sym : Symbol) :
    Option.Rel (fun next i ↦ n.subsets.nodes[i]? = some next)
      (if sym ∈ n.alphabet then n.next? set sym else none) (n.toDfa.edge? k sym) := by
  obtain ⟨r, hr, -⟩ := states_toDfa h
  obtain ⟨set', hset', hrel⟩ := subsets_valid.row_at k r hr
  obtain rfl : set = set' := Option.some.inj (h.symm.trans hset')
  rw [edge?_toDfa h, Exploration.edge?, hr, Option.bind_some]
  have hrow : (if sym ∈ n.alphabet then n.next? set sym else none) =
      ((n.subsetRow set).get? sym).map n.closure := by
    rw [subsetRow, Row.get?_tabulate, ← map_seedsOf?]
    split <;> rfl
  rw [hrow]
  exact rel_map_left (rel_swap (hrel sym))

theorem WellFormed.moved_of_not_mem (h : n.WellFormed) (hsym : sym ∉ n.alphabet) (set : StateSet) :
    n.moved set sym = n.moved set .any := by
  unfold moved targets
  apply List.filterMap_congr
  intro e he
  obtain ⟨s, -, hmem⟩ := List.mem_flatMap.1 he
  have hne : e.1 ≠ sym := by
    rintro rfl
    exact hsym (h.label_mem s e hmem)
  simp [Symbol.admits, hne]

theorem WellFormed.moved_any_of_not_mem (h : n.WellFormed) (hany : .any ∉ n.alphabet)
    (set : StateSet) : n.moved set .any = [] := by
  apply List.eq_nil_iff_forall_not_mem.2
  intro t ht
  obtain ⟨s, -, hstep⟩ := mem_moved.1 ht
  obtain ⟨label, hmem, hadmits⟩ := mem_targets.1 hstep
  have hlabel : label = .any := by simpa [Symbol.admits] using hadmits
  exact hany (hlabel ▸ h.label_mem s _ hmem)

theorem moved_any_eq_nil (h : n.moved set sym = []) : n.moved set .any = [] := by
  apply List.eq_nil_iff_forall_not_mem.2
  intro t ht
  obtain ⟨s, hs, hstep⟩ := mem_moved.1 ht
  exact List.not_mem_nil (h ▸ mem_moved.2 ⟨s, hs, mem_step_of_any hstep sym⟩ : t ∈ [])

/-- A byte of the alphabet moves by itself, or not at all, and other bytes move like `any`. -/
theorem WellFormed.next?_eq_or (h : n.WellFormed) (set : StateSet) (sym : Symbol) :
    n.next? set sym = (if sym ∈ n.alphabet then n.next? set sym else none).or
      (if .any ∈ n.alphabet then n.next? set .any else none) := by
  have hany : (if .any ∈ n.alphabet then n.next? set .any else none) = n.next? set .any := by
    split
    · rfl
    · exact (next?_eq_none_iff.2 (h.moved_any_of_not_mem (by assumption) set)).symm
  rw [hany]
  by_cases hmem : sym ∈ n.alphabet
  · rw [if_pos hmem]
    cases hnext : n.next? set sym with
    | some next => rfl
    | none => exact (next?_eq_none_iff.2 (moved_any_eq_nil (next?_eq_none_iff.1 hnext))).symm
  · rw [if_neg hmem, Option.none_or]
    simp only [next?, h.moved_of_not_mem hmem]

theorem WellFormed.follow_rel (h : n.WellFormed) (hset : n.subsets.nodes[k]? = some set)
    (sym : Symbol) :
    Option.Rel (fun next i ↦ n.subsets.nodes[i]? = some next) (n.next? set sym)
      (n.toDfa.follow? k sym) := by
  rw [h.next?_eq_or]
  cases sym with
  | any =>
    rw [Option.or_self]
    exact edge_rel hset .any
  | byte b => exact rel_or (edge_rel hset (.byte b)) (edge_rel hset .any)

theorem WellFormed.walk_rel (h : n.WellFormed) (hset : n.subsets.nodes[k]? = some set)
    (word : List Symbol) :
    Option.Rel (fun next i ↦ n.subsets.nodes[i]? = some next) (n.runFrom? set word)
      (n.toDfa.walkFrom? k word) :=
  rel_foldlM (fun _ _ sym hset ↦ h.follow_rel hset sym) hset word

theorem WellFormed.mem_residual_toDfa (h : n.WellFormed) (hset : n.subsets.nodes[k]? = some set)
    (closed : n.Closed set) {word : List Symbol} :
    word ∈ n.toDfa.residual k ↔ ∃ s ∈ set, n.Path s word n.accept := by
  rw [← h.mem_runFrom?_iff closed, Dfa.mem_residual]
  have hrel := h.walk_rel hset word
  constructor
  · intro h'
    obtain ⟨i, hi, haccepting⟩ := h'
    obtain ⟨next, hnext, hnode⟩ := exists_left_of_rel hrel hi
    rw [isAccepting_toDfa hnode] at haccepting
    exact ⟨next, hnext, List.contains_iff_mem.1 haccepting⟩
  · intro h'
    obtain ⟨next, hnext, hmem⟩ := h'
    obtain ⟨i, hi, hnode⟩ := exists_right_of_rel hrel hnext
    refine ⟨i, hi, ?_⟩
    rw [isAccepting_toDfa hnode]
    exact List.contains_iff_mem.2 hmem

theorem WellFormed.mem_symbolLanguage_toDfa (h : n.WellFormed) {word : List Symbol} :
    word ∈ n.toDfa.symbolLanguage ↔ n.Path n.start word n.accept := by
  rw [← h.mem_run_iff, h.mem_runFrom?_iff h.initial_closed]
  exact h.mem_residual_toDfa subsets_start h.initial_closed

/-- A run of the subset automaton goes through the sets that a run on the same bytes goes
through. -/
theorem WellFormed.run_rel (h : n.WellFormed) (word : List UInt8) :
    Option.Rel (fun set k ↦ n.subsets.nodes[k]? = some set) (n.run? word) (n.toDfa.run? word) := by
  rw [run?_eq, Dfa.run?, Dfa.runFrom?_eq]
  exact h.walk_rel subsets_start _

theorem WellFormed.accepts_toDfa (h : n.WellFormed) (word : List UInt8) :
    n.toDfa.accepts word = n.accepts word := by
  refine (any_eq_of_rel (rel_mono (h.run_rel word) ?_)).symm
  intro set k hk
  exact (isAccepting_toDfa hk).symm

theorem WellFormed.run?_toDfa_eq_none_iff (h : n.WellFormed) {word : List UInt8} :
    n.toDfa.run? word = none ↔ ∃ u, u <+: word ∧ ∀ s, ¬n.Path n.start (u.map .byte) s := by
  rw [← eq_none_iff_of_rel (h.run_rel word)]
  constructor
  · intro hnone
    exact ⟨word, word.prefix_rfl, h.run?_eq_none_iff.1 hnone⟩
  · intro h'
    obtain ⟨u, hu, hno⟩ := h'
    exact run?_eq_none_of_prefix hu (h.run?_eq_none_iff.2 hno)

theorem increasing_of_node (h : n.subsets.nodes[k]? = some set) : set.Pairwise (· < ·) := by
  obtain ⟨seeds, rfl⟩ := subsets_valid.coherent.named k set h
  exact n.closure_increasing seeds

theorem exists_edge?_of_any {i : Nat} (hany : n.toDfa.edge? k .any = some i)
    (hsym : sym ∈ n.alphabet) :
    ∃ j, n.toDfa.edge? k sym = some j := by
  obtain ⟨set, hset⟩ := exists_set (Dfa.lt_of_edge? hany)
  cases hedge : n.toDfa.edge? k sym with
  | some j => exact ⟨j, rfl⟩
  | none =>
    have hnone := (eq_none_iff_of_rel (edge_rel hset sym)).2 hedge
    rw [if_pos hsym, next?_eq_none_iff] at hnone
    obtain ⟨next, hnext, -⟩ := exists_left_of_rel (edge_rel hset .any) hany
    rw [Option.ite_none_right_eq_some] at hnext
    exact absurd (moved_any_eq_nil hnone) (next?_eq_some_iff.1 hnext.2).1

theorem follow?_toDfa (hsym : sym ∈ n.alphabet) (k : Nat) :
    n.toDfa.follow? k sym = n.toDfa.edge? k sym := by
  cases sym with
  | any => rfl
  | byte b =>
    rw [Dfa.follow?, Dfa.next?]
    cases hany : n.toDfa.edge? k .any with
    | none => rw [Option.or_none]
    | some i =>
      obtain ⟨j, hj⟩ := exists_edge?_of_any hany hsym
      rw [hj, Option.some_or]

/-- Each state of `d` stands for a set of states of `n`. On every word `d` reaches
the state that stands for the ends of the paths over it; if some beginning of the
word has no path, `d` is stuck. -/
structure DeterminizedBy (n : Nfa) (d : Dfa) (sets : Array StateSet) : Prop where
  accepts_eq : ∀ word, d.accepts word = n.accepts word
  stuck_iff : ∀ word, d.run? word = none ↔ ∃ u, u <+: word ∧ ∀ s, ¬n.Path n.start (u.map .byte) s
  size_eq : sets.size = d.stateCount
  nodup : sets.toList.Nodup
  reached : ∀ word k, d.run? word = some k → ∃ set, sets[k]? = some set ∧ n.run? word = some set ∧
    set.Pairwise (· < ·) ∧ ∀ s, s ∈ set ↔ n.Path n.start (word.map .byte) s

theorem mem_alphabet_of_edge? {i j : Nat}
    (h : Exploration.edge? n.subsets.rows i sym = some j) : sym ∈ n.alphabet := by
  obtain ⟨a, b, -, hget, -⟩ := subsets_valid.exists_of_edge? h
  rw [subsetRow, Row.get?_tabulate] at hget
  by_contra hmem
  simp [hmem] at hget

theorem exists_walk?_toDfa (hk : k < n.toDfa.stateCount) :
    ∃ word, (∀ sym ∈ word, sym ∈ n.toDfa.alphabet) ∧ n.toDfa.walk? word = some k := by
  refine Dfa.exists_walk?_of_valid subsets_valid rfl (fun i s j hedge ↦ ?_) (stateCount_toDfa ▸ hk)
  obtain ⟨a, b, ha, -, -⟩ := subsets_valid.exists_of_edge? hedge
  exact ⟨mem_alphabet_of_edge? hedge, Dfa.follow?_of_edge? (edge?_toDfa ha s ▸ hedge)⟩

theorem exists_edge_of_edge?_toDfa {i j : Nat} (h : n.toDfa.edge? i sym = some j) :
    Exploration.edge? n.subsets.rows i sym = some j := by
  obtain ⟨set, hset⟩ := exists_set (Dfa.lt_of_edge? h)
  rwa [← edge?_toDfa hset]

theorem toDfa_wellFormed : n.toDfa.WellFormed where
  start_lt := by
    rw [stateCount_toDfa]
    exact (Array.getElem?_eq_some_iff.1 subsets_start).1
  target_lt s sym t ht := by
    rw [stateCount_toDfa]
    exact (subsets_valid.edge_lt (exists_edge_of_edge?_toDfa ht)).2
  label_mem s sym t ht := mem_alphabet_of_edge? (exists_edge_of_edge?_toDfa ht)

/-- The edges that the numbering went along are those that the symbols of the alphabet follow. -/
theorem edge?_subsets (hk : k < n.toDfa.stateCount) (sym : Symbol) :
    Exploration.edge? n.subsets.rows k sym =
      if sym ∈ n.alphabet then n.toDfa.follow? k sym else none := by
  obtain ⟨set, hset⟩ := exists_set hk
  split
  · rename_i hsym
    rw [follow?_toDfa hsym, edge?_toDfa hset]
  · rename_i hsym
    cases hedge : Exploration.edge? n.subsets.rows k sym with
    | none => rfl
    | some i => exact absurd (mem_alphabet_of_edge? hedge) hsym

theorem WellFormed.toDfa_trim (h : n.WellFormed)
    (live : ∀ s < n.stateCount, ∃ word, n.Path s word n.accept) : n.toDfa.Trim where
  toWellFormed := toDfa_wellFormed
  reached s hs := exists_walk?_toDfa hs
  live k hk := by
    obtain ⟨set, hset⟩ := exists_set hk
    obtain ⟨seeds, rfl⟩ := subsets_valid.coherent.named k set hset
    obtain ⟨u, -, hu⟩ := exists_walk?_toDfa hk
    obtain ⟨set', hrun, hset'⟩ := exists_left_of_rel (h.walk_rel subsets_start u) hu
    obtain rfl : n.closure seeds = set' := Option.some.inj (hset.symm.trans hset')
    obtain ⟨s, hs⟩ := List.exists_mem_of_ne_nil _ (h.ne_nil_of_runFrom? h.initial_ne_nil hrun)
    obtain ⟨word, hpath⟩ := live s (lt_of_mem_closure hs)
    exact ⟨word, (h.mem_residual_toDfa hset (h.closed_closure seeds)).2 ⟨s, hs, hpath⟩⟩

end BytePatterns.Nfa
