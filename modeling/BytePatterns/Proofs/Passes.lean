import BytePatterns.Proofs.Tree.Automata

namespace BytePatterns

section place

variable {α κ : Type} [DecidableEq κ] {key : α → κ}

def place (key : α → κ) (a : α) : List (List α) → List (List α)
  | [] => [[a]]
  | group :: rest =>
    if group.head?.map key = some (key a) then (group ++ [a]) :: rest else group :: place key a rest

theorem separate_concat (k : κ) (items : List α) (a : α) : separate key k (items ++ [a]) =
    if key a = k then ((separate key k items).1 ++ [a], (separate key k items).2)
    else ((separate key k items).1, (separate key k items).2 ++ [a]) := by
  simp only [separate, List.partition_eq_filter_filter, List.filter_append]
  by_cases h : key a = k
  · simp [h]
  · simp [h]

theorem groupsBy_concat (items : List α) (a : α) :
    groupsBy key (items ++ [a]) = place key a (groupsBy key items) := by
  fun_induction groupsBy key items with
  | case1 => simp [groupsBy, separate, place]
  | case2 c rest separated ih =>
    rw [List.cons_append, groupsBy, separate_concat, place, List.head?_cons, Option.map_some]
    by_cases h : key a = key c
    · rw [if_pos h, if_pos (congrArg some h.symm)]
      rfl
    · rw [if_neg h, if_neg fun heq ↦ h (Option.some.inj heq).symm, ← ih]

theorem foldl_place (key : α → κ) (items : List α) :
    items.foldl (fun groups a ↦ place key a groups) [] = groupsBy key items := by
  induction items using List.reverseRecOn with
  | nil => simp [groupsBy]
  | append_singleton items a ih =>
    rw [List.foldl_append, ih, groupsBy_concat, List.foldl_cons, List.foldl_nil]

theorem groupsBy_congr {key' : α → κ} {items : List α} (h : ∀ a ∈ items, key a = key' a) :
    groupsBy key items = groupsBy key' items := by
  fun_induction groupsBy key items with
  | case1 => simp [groupsBy]
  | case2 c rest separated ih =>
    obtain ⟨hc, hrest⟩ := List.forall_mem_cons.1 h
    have hseparated : separate key' (key' c) rest = separated := by
      simp only [separated, separate, List.partition_eq_filter_filter, ← hc]
      have hfilter : ∀ a ∈ rest, decide (key' a = key c) = decide (key a = key c) :=
        fun a ha ↦ by rw [hrest a ha]
      exact Prod.ext (List.filter_congr hfilter)
        (List.filter_congr fun a ha ↦ congrArg Bool.not (hfilter a ha))
    have hothers : ∀ a ∈ separated.2, key a = key' a := by
      intro a ha
      have hmem : a ∈ rest := (separate_perm key (key c) rest).subset (List.mem_append_right _ ha)
      exact hrest a hmem
    rw [groupsBy, hseparated, ih hothers]

theorem exists_split_iff {blocks : List (List α)} (h : ∀ block ∈ blocks, block ≠ []) :
    (∃ block ∈ blocks, 1 < (groupsBy key block).length) ↔
      blocks.length < (blocks.flatMap (groupsBy key)).length := by
  induction blocks with
  | nil => simp
  | cons block rest ih =>
    -- every block has a group, so more groups than blocks must come from one that has two
    obtain ⟨hblock, hrest⟩ := List.forall_mem_cons.1 h
    have first := length_pos_groupsBy key hblock
    have others := length_le_length_flatMap key hrest
    rw [List.exists_mem_cons_iff, ih hrest, List.length_cons, List.flatMap_cons, List.length_append]
    omega

end place

structure Partitions (size : Nat) (blocks : List (List Nat)) (blockOf : Array Nat) : Prop where
  nonempty : ∀ block ∈ blocks, block ≠ []
  disjoint : blocks.Pairwise List.Disjoint
  cover : ∀ s, (∃ block ∈ blocks, s ∈ block) ↔ s < size
  increasing : ∀ block ∈ blocks, block.Pairwise (· < ·)
  size_blockOf : blockOf.size = size
  blockOf_iff : ∀ s i : Nat, blockOf[s]? = some i ↔ ∃ block, blocks[i]? = some block ∧ s ∈ block

namespace Partition

variable {size : Nat} {p : Partition size}

theorem size_blockOf (p : Partition size) : p.blockOf.size = size := by
  refine Nat.le_antisymm (Nat.not_lt.1 fun hlt ↦ ?_) (Nat.not_lt.1 fun hlt ↦ ?_)
  · have hnone := p.blockOf_of_le (Nat.le_refl size)
    rw [Array.getElem?_eq_getElem hlt] at hnone
    cases hnone
  · obtain ⟨i, -, -, -, hsome⟩ := p.exists_blockOf hlt
    rw [Array.getElem?_eq_none (Nat.le_refl _)] at hsome
    cases hsome

theorem blockOf_eq_some_iff {s i : Nat} :
    p.blockOf[s]? = some i ↔ ∃ block, p.blocks[i]? = some block ∧ s ∈ block := by
  constructor
  · intro hsome
    have hlt : s < size := p.size_blockOf ▸ (Array.getElem?_eq_some_iff.1 hsome).1
    obtain ⟨j, block, hblock, hs, hj⟩ := p.exists_blockOf hlt
    obtain rfl := Option.some.inj (hsome.symm.trans hj)
    exact ⟨block, hblock, hs⟩
  · rintro ⟨block, hblock, hs⟩
    exact blockOf_of_mem hblock hs

theorem Increasing.partitions (h : p.Increasing) : Partitions size p.blocks p.blockOf where
  nonempty := p.nonempty
  disjoint := (List.nodup_flatten.1 p.nodup_flatten).2
  cover s := by rw [← List.mem_flatten, p.cover.mem_iff, List.mem_range]
  increasing := h
  size_blockOf := p.size_blockOf
  blockOf_iff _ _ := blockOf_eq_some_iff

theorem length_successors_le (refine : Partition size → Partition size) (p : Partition size) :
    p.blockCount + (p.successors refine).length ≤ size := by
  fun_induction successors refine p with
  | case1 p q hlt ih =>
    rw [List.length_cons]
    omega
  | case2 p q hle => exact p.blockCount_le

end Partition

namespace Dfa

variable {d : Dfa} {s i k : Nat}

/-- One pass through the blocks: the new blocks, or nothing if no block was split. -/
def pass? (d : Dfa) (p : Partition d.stateCount) : Option (List (List Nat)) :=
  let key s := signature p.blockOf (d.column s)
  let groups := p.blocks.map fun block ↦ block.foldl (fun groups s ↦ place key s groups) []
  if groups.any (1 < ·.length) then some groups.flatten else none

/-- The loop goes from the partition through the others and stops. -/
inductive Refines (d : Dfa) : Partition d.stateCount → List (Partition d.stateCount) → Prop
  | stop {p : Partition d.stateCount} : d.pass? p = none → Refines d p []
  | pass {p q : Partition d.stateCount} {qs : List (Partition d.stateCount)} :
      d.pass? p = some q.blocks → Refines d q qs → Refines d p (q :: qs)

theorem blocks_refineBy (p : Partition d.stateCount) : (refineBy d.columns p).blocks =
    p.blocks.flatMap (groupsBy fun s ↦ signature p.blockOf (d.column s)) := by
  rw [refineBy, Partition.splitBy]
  refine List.flatMap_congr fun block hblock ↦ groupsBy_congr fun s hs ↦ ?_
  exact getD_signatures (Partition.lt_of_mem_block hblock hs)

theorem pass?_eq (p : Partition d.stateCount) : d.pass? p =
    if p.blockCount < (refineBy d.columns p).blockCount then some (refineBy d.columns p).blocks
      else none := by
  let key s := signature p.blockOf (d.column s)
  have hsplit : (∃ block ∈ p.blocks, 1 < (groupsBy key block).length) ↔
      p.blocks.length < (p.blocks.flatMap (groupsBy key)).length := exists_split_iff p.nonempty
  simp only [pass?, foldl_place, Partition.blockCount, blocks_refineBy]
  rw [← if_congr hsplit rfl rfl, List.flatMap]
  simp [key]

theorem refines_successors (p : Partition d.stateCount) :
    d.Refines p (p.successors (refineBy d.columns)) := by
  fun_induction Partition.successors (refineBy d.columns) p with
  | case1 p q hlt ih => exact .pass ((pass?_eq p).trans (if_pos hlt)) ih
  | case2 p q hle => exact .stop ((pass?_eq p).trans (if_neg hle))

theorem Refines.unique {p : Partition d.stateCount} {qs qs' : List (Partition d.stateCount)}
    (h : d.Refines p qs) (h' : d.Refines p qs') : qs = qs' := by
  induction h generalizing qs' with
  | stop hnone =>
    cases h' with
    | stop _ => rfl
    | pass hsome _ => cases hnone.symm.trans hsome
  | @pass p q qs hsome _ ih =>
    cases h' with
    | stop hnone => cases hnone.symm.trans hsome
    | @pass _ q' qs' hsome' hrest =>
      have heq : q = q' := by
        cases q
        cases q'
        simpa using hsome.symm.trans hsome'
      subst heq
      rw [ih hrest]

theorem refines_iff {qs : List (Partition d.stateCount)} :
    d.Refines d.initialPartition qs ↔ qs = d.refinements :=
  ⟨fun h ↦ h.unique (refines_successors _), fun h ↦ h ▸ refines_successors _⟩

theorem increasing_of_mem {p : Partition d.stateCount}
    (h : p ∈ d.initialPartition :: d.refinements) :
    p.Increasing := by
  obtain ⟨k, hk⟩ := List.mem_iff_getElem?.1 h
  refine Partition.passes_induction (P := fun _ q ↦ q.Increasing) ?_ (fun _ q hq ↦ hq.splitBy _) hk
  exact Partition.increasing_bipartition d.stateCount d.isAccepting

theorem finer_of_pass? {p : Partition d.stateCount} {blocks : List (List Nat)}
    (h : d.pass? p = some blocks) :
    (∀ group ∈ blocks, ∃ block ∈ p.blocks, group ⊆ block) ∧ p.blocks.length < blocks.length := by
  rw [pass?_eq, Option.ite_none_right_eq_some, Option.some.injEq] at h
  obtain ⟨hlt, rfl⟩ := h
  refine ⟨fun group hgroup ↦ ?_, hlt⟩
  rw [blocks_refineBy] at hgroup
  obtain ⟨block, hblock, hmem⟩ := List.mem_flatMap.1 hgroup
  exact ⟨block, hblock, (sublist_of_mem_groupsBy hmem).subset⟩

structure RefinesToStable (d : Dfa) : Prop where
  refines_iff : ∀ qs, d.Refines d.initialPartition qs ↔ qs = d.refinements
  partitions : ∀ p ∈ d.initialPartition :: d.refinements, Partitions d.stateCount p.blocks p.blockOf
  target_lt : ∀ p ∈ d.initialPartition :: d.refinements, ∀ s sym t,
    d.follow? s sym = some t → t < p.blockOf.size
  finer : ∀ p ∈ d.initialPartition :: d.refinements, ∀ blocks, d.pass? p = some blocks →
    (∀ group ∈ blocks, ∃ block ∈ p.blocks, group ⊆ block) ∧ p.blocks.length < blocks.length
  passes_le : d.refinements.length + 1 ≤ d.stateCount

structure NumbersEveryBlock (d : Dfa) : Prop where
  stateCount_eq : d.minimize.stateCount = d.stablePartition.blockCount
  existsUnique_state : ∀ block ∈ d.stablePartition.blocks,
    ∃! k, k < d.minimize.stateCount ∧ ∀ s, s ∈ d.blockMembers k ↔ s ∈ block

theorem Closed.loop_refines (h : d.Closed) (hpos : 0 < d.stateCount) : d.RefinesToStable where
  refines_iff _ := refines_iff
  partitions p hp := (increasing_of_mem hp).partitions
  target_lt p _ s sym t ht := p.size_blockOf.symm ▸ h.follow?_lt ht
  finer _ _ _ := finer_of_pass?
  passes_le := by
    have hle := Partition.length_successors_le (refineBy d.columns) d.initialPartition
    obtain ⟨block, hblock, -⟩ := d.initialPartition.exists_block hpos
    have hone : 0 < d.initialPartition.blockCount := List.length_pos_of_mem hblock
    rw [refinements]
    omega

theorem Trim.exists_mem_blockMembers (h : d.Trim) (hs : s < d.stateCount) :
    ∃ k, s ∈ d.blockMembers k := by
  obtain ⟨word, -, hword⟩ := h.reached s hs
  -- the quotient goes along, from block to block, when the word leads to the state
  have hrel := h.walk_rel_minimize word
  obtain ⟨k, -, hk⟩ := exists_right_of_rel hrel hword
  exact ⟨k, hk⟩

theorem mem_blockMembers_iff {block : List Nat} (hblock : d.stablePartition.blocks[i]? = some block)
    (hk : d.numberedBlocks.nodes[k]? = some i) : s ∈ d.blockMembers k ↔ s ∈ block := by
  constructor
  · rintro ⟨hs, hnode⟩
    obtain ⟨j, block', hj, hmem, -⟩ := d.stablePartition.exists_blockOf hs
    rw [hk, block_eq_of_mem hj hmem] at hnode
    obtain rfl := Option.some.inj hnode
    rwa [Option.some.inj (hblock.symm.trans hj)]
  · intro hs
    refine ⟨Partition.lt_of_mem_block (List.mem_of_getElem? hblock) hs, ?_⟩
    rw [hk, block_eq_of_mem hblock hs]

theorem Trim.exists_node (h : d.Trim) {block : List Nat}
    (hblock : d.stablePartition.blocks[i]? = some block) :
    ∃ k : Nat, d.numberedBlocks.nodes[k]? = some i := by
  have hmem := List.mem_of_getElem? hblock
  obtain ⟨s, hs⟩ := List.exists_mem_of_ne_nil block (d.stablePartition.nonempty block hmem)
  obtain ⟨k, -, hk⟩ := h.exists_mem_blockMembers (Partition.lt_of_mem_block hmem hs)
  exact ⟨k, block_eq_of_mem hblock hs ▸ hk⟩

theorem Trim.numbersEveryBlock (h : d.Trim) : d.NumbersEveryBlock where
  stateCount_eq := by
    have hpos := Nat.zero_lt_of_lt h.start_lt
    have hcoherent := (numberedBlocks_valid (d := d)).coherent
    rw [stateCount_minimize hpos]
    apply Nat.le_antisymm
    · refine length_blocks_le hpos d.numberedBlocks.nodes.toList hcoherent.nodup fun i hi ↦ ?_
      obtain ⟨k, hk⟩ := List.mem_iff_getElem?.1 hi
      exact hcoherent.named k i (by rwa [Array.getElem?_toList] at hk)
    · have hsubset : List.range d.stablePartition.blockCount ⊆ d.numberedBlocks.nodes.toList := by
        intro i hi
        obtain ⟨k, hk⟩ := h.exists_node (List.getElem?_eq_getElem (List.mem_range.1 hi))
        exact List.mem_of_getElem? (by rwa [Array.getElem?_toList])
      have hle := (List.nodup_range.subperm hsubset).length_le
      rwa [List.length_range] at hle
  existsUnique_state := by
    intro block hblock
    obtain ⟨i, hi⟩ := List.mem_iff_getElem?.1 hblock
    obtain ⟨k, hk⟩ := h.exists_node hi
    have hlt : k < d.minimize.stateCount := by
      rw [stateCount_minimize (Nat.zero_lt_of_lt h.start_lt)]
      exact (Array.getElem?_eq_some_iff.1 hk).1
    refine ⟨k, ⟨hlt, fun s ↦ mem_blockMembers_iff hi hk⟩, fun k' hk' ↦ ?_⟩
    obtain ⟨s, hs⟩ := List.exists_mem_of_ne_nil block (d.stablePartition.nonempty block hblock)
    exact eq_of_mem_blockMembers ((hk'.2 s).2 hs) ((mem_blockMembers_iff hi hk).2 hs)

/-- Minimization goes through ever finer partitions of the states and stops after no
more passes than there are states; for the automata of a tree every block of the
last partition becomes a state. -/
theorem refinesToStable (hpos : 0 < d.stateCount) (hclosed : d.Closed) :
    d.RefinesToStable ∧ ∀ t : Tree, d ∈ t.automata → d.NumbersEveryBlock :=
  ⟨hclosed.loop_refines hpos, fun t hd ↦ (t.trim_of_mem_automata hd).numbersEveryBlock⟩

def abAutomaton : Dfa := (Tree.concat (.byte 97) (.byte 98)).toNfa.toDfa

/-- One pass takes the start state apart from the state behind it. -/
theorem refinesToStable_abAutomaton : 0 < abAutomaton.stateCount ∧ abAutomaton.Closed ∧
    abAutomaton.RefinesToStable ∧ abAutomaton.NumbersEveryBlock ∧
      abAutomaton.refinements.length = 1 ∧ abAutomaton.minimize.stateCount = 3 := by
  have hclosed : abAutomaton.Closed := (Tree.toDfa_trim _).toClosed
  have hpos : 0 < abAutomaton.stateCount := by decide +kernel
  obtain ⟨hrefines, hnumbers⟩ := refinesToStable hpos hclosed
  refine ⟨hpos, hclosed, hrefines, hnumbers _ List.mem_cons_self, ?_, ?_⟩
  · decide +kernel
  · decide +kernel

end Dfa

end BytePatterns
