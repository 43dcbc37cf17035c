import BytePatterns.Proofs.Dfa.Partition

namespace BytePatterns.Dfa

variable {d : Dfa} {s t k : Nat} {sym : Symbol}

def block (d : Dfa) (s : Nat) : Nat := d.stablePartition.blockOf[s]?.getD 0

def leader (d : Dfa) (i : Nat) : Nat :=
  (d.stablePartition.blocks.map fun block ↦ block.headD 0).toArray[i]?.getD 0

def blockRow (d : Dfa) (i : Nat) : Row Nat := .tabulate d.alphabet (d.follow? (d.leader i))

def numberedBlocks (d : Dfa) : Exploration Nat Nat :=
  explore d.blockRow d.block d.stablePartition.blockCount d.start

theorem states_minimize_eq : d.minimize.states = d.numberedBlocks.nodes.zipWith
    (fun i row ↦ ⟨d.isAccepting (d.leader i), row.withoutRedundant⟩) d.numberedBlocks.rows := rfl

theorem block_eq_of_mem {block : List Nat} {i : Nat}
    (hblock : d.stablePartition.blocks[i]? = some block) (hs : s ∈ block) : d.block s = i := by
  rw [Dfa.block, Partition.blockOf_of_mem hblock hs, Option.getD_some]

theorem exists_leader (hs : s < d.stateCount) :
    ∃ i, d.block s = i ∧ i < d.stablePartition.blockCount ∧
      d.stablePartition.Same s (d.leader i) := by
  obtain ⟨i, block, hi, hmem, -⟩ := d.stablePartition.exists_blockOf hs
  refine ⟨i, block_eq_of_mem hi hmem, (List.getElem?_eq_some_iff.1 hi).1, block,
    List.mem_of_getElem? hi, hmem, ?_⟩
  obtain ⟨first, rest, rfl⟩ := List.exists_cons_of_ne_nil (List.ne_nil_of_mem hmem)
  simp [leader, hi]

theorem same_leader (hs : s < d.stateCount) : d.stablePartition.Same s (d.leader (d.block s)) := by
  obtain ⟨i, rfl, -, hsame⟩ := exists_leader hs
  exact hsame

theorem block_lt (hpos : 0 < d.stateCount) (s : Nat) :
    d.block s < d.stablePartition.blockCount := by
  rcases Nat.lt_or_ge s d.stateCount with hs | hs
  · obtain ⟨i, rfl, hi, -⟩ := exists_leader hs
    exact hi
  · rw [block, d.stablePartition.blockOf_of_le hs]
    obtain ⟨i, -, hi, -⟩ := exists_leader hpos
    exact Nat.zero_lt_of_lt hi

theorem length_blocks_le (hpos : 0 < d.stateCount) (l : List Nat) (nodup : l.Nodup)
    (h : ∀ i ∈ l, ∃ s, d.block s = i) : l.length ≤ d.stablePartition.blockCount := by
  have hsubset : l ⊆ List.range d.stablePartition.blockCount := by
    intro i hi
    obtain ⟨s, rfl⟩ := h i hi
    exact List.mem_range.2 (block_lt hpos s)
  have hle := (nodup.subperm hsubset).length_le
  rwa [List.length_range] at hle

theorem numberedBlocks_valid : d.numberedBlocks.Valid d.blockRow d.block :=
  explore_valid d.blockRow d.block _ d.start

theorem numberedBlocks_start : d.numberedBlocks.nodes[0]? = some (d.block d.start) :=
  explore_start d.blockRow d.block _ d.start

theorem numberedBlocks_complete (hpos : 0 < d.stateCount) :
    d.numberedBlocks.rows.size = d.numberedBlocks.nodes.size :=
  explore_complete d.blockRow d.block d.start (length_blocks_le hpos)

theorem exists_member {i : Nat} (hpos : 0 < d.stateCount)
    (hk : d.numberedBlocks.nodes[k]? = some i) :
    ∃ s < d.stateCount, d.block s = i := by
  obtain ⟨s, rfl⟩ := numberedBlocks_valid.coherent.named k i hk
  have hlt : d.block s < d.stablePartition.blocks.length := block_lt hpos s
  have hblock : d.stablePartition.blocks[d.block s]? = some d.stablePartition.blocks[d.block s] :=
    List.getElem?_eq_getElem hlt
  have hmem := List.mem_of_getElem? hblock
  obtain ⟨t, ht⟩ := List.exists_mem_of_ne_nil _ (d.stablePartition.nonempty _ hmem)
  exact ⟨t, Partition.lt_of_mem_block hmem ht, block_eq_of_mem hblock ht⟩

theorem states_minimize (hpos : 0 < d.stateCount)
    (hk : d.numberedBlocks.nodes[k]? = some (d.block s)) :
    ∃ r, d.numberedBlocks.rows[k]? = some r ∧
      d.minimize.states[k]? = some ⟨d.isAccepting (d.leader (d.block s)), r.withoutRedundant⟩ ∧
      ∀ sym, Option.Rel (fun j t ↦ d.numberedBlocks.nodes[j]? = some (d.block t)) (r.get? sym)
        (if sym ∈ d.alphabet then d.follow? (d.leader (d.block s)) sym else none) := by
  have hlt : k < d.numberedBlocks.rows.size :=
    (numberedBlocks_complete hpos).symm ▸ (Array.getElem?_eq_some_iff.1 hk).1
  have hr : d.numberedBlocks.rows[k]? = some d.numberedBlocks.rows[k] :=
    Array.getElem?_eq_getElem hlt
  obtain ⟨i, hi, hrel⟩ := numberedBlocks_valid.row_at k _ hr
  obtain rfl : d.block s = i := Option.some.inj (hk.symm.trans hi)
  refine ⟨_, hr, ?_, ?_⟩
  · rw [states_minimize_eq, Array.getElem?_zipWith, hk, hr]
  · intro sym
    rw [← Row.get?_tabulate]
    exact hrel sym

theorem stateCount_minimize (hpos : 0 < d.stateCount) :
    d.minimize.stateCount = d.numberedBlocks.nodes.size := by
  simp [stateCount, states_minimize_eq, numberedBlocks_complete hpos]

theorem get?_withoutRedundant (r : Row Nat) (sym : Symbol) :
    r.withoutRedundant.get? sym = some t ↔
      r.get? sym = some t ∧ (sym = .any ∨ r.get? .any ≠ some t) := by
  rw [Row.withoutRedundant, Row.get?_filter]
  simp [Option.filter_eq_some_iff]

theorem get?_withoutRedundant_or (r : Row Nat) (sym : Symbol) :
    (r.withoutRedundant.get? sym).or (r.withoutRedundant.get? .any) =
      (r.get? sym).or (r.get? .any) := by
  have hany : r.withoutRedundant.get? .any = r.get? .any := by
    ext t
    simp [get?_withoutRedundant]
  rw [hany]
  cases hsym : r.get? sym with
  | none =>
    have hnone : r.withoutRedundant.get? sym = none := by
      simp [Option.eq_none_iff_forall_ne_some, get?_withoutRedundant, hsym]
    rw [hnone]
  | some t =>
    by_cases hkept : sym = .any ∨ r.get? .any ≠ some t
    · rw [(get?_withoutRedundant r sym).2 ⟨hsym, hkept⟩]
    · have hnone : r.withoutRedundant.get? sym = none := by
        simpa [Option.eq_none_iff_forall_ne_some, get?_withoutRedundant, hsym] using hkept
      obtain ⟨-, heq⟩ : sym ≠ .any ∧ r.get? .any = some t := by simpa [not_or] using hkept
      rw [hnone, heq, Option.none_or, Option.some_or]

theorem follow?_of_states {accepting : Bool} {r : Row Nat}
    (h : d.states[k]? = some ⟨accepting, r.withoutRedundant⟩) (sym : Symbol) :
    d.follow? k sym = (r.get? sym).or (r.get? .any) := by
  rw [← get?_withoutRedundant_or]
  cases sym <;> simp [follow?, next?, edge?, h]

/-- The quotient moves from block to block as the members of the blocks do. -/
theorem WellFormed.follow_rel_minimize (h : d.WellFormed) (hs : s < d.stateCount)
    (hk : d.numberedBlocks.nodes[k]? = some (d.block s)) (sym : Symbol) :
    Option.Rel (fun t j ↦ t < d.stateCount ∧ d.numberedBlocks.nodes[j]? = some (d.block t))
      (d.follow? s sym) (d.minimize.follow? k sym) := by
  obtain ⟨r, -, hstate, hrel⟩ := states_minimize (Nat.zero_lt_of_lt hs) hk
  have hleader := h.follow_rel_of_same (same_leader hs) sym
  rw [h.follow?_eq_or (d.leader (d.block s))] at hleader
  rw [follow?_of_states hstate]
  refine rel_mono (rel_trans hleader (rel_swap (rel_or (hrel sym) (hrel .any)))) ?_
  rintro t j ⟨t', hsame, hnode⟩
  have hblock : d.block t = d.block t' :=
    (Partition.blockOf_eq_iff hsame.lt_left hsame.symm.lt_left).2 hsame
  exact ⟨hsame.lt_left, hblock ▸ hnode⟩

theorem WellFormed.isAccepting_minimize (h : d.WellFormed) (hs : s < d.stateCount)
    (hk : d.numberedBlocks.nodes[k]? = some (d.block s)) :
    d.isAccepting s = d.minimize.isAccepting k := by
  obtain ⟨r, -, hstate, -⟩ := states_minimize (Nat.zero_lt_of_lt hs) hk
  rw [h.isAccepting_eq_of_same (same_leader hs)]
  simp [isAccepting, hstate]

theorem WellFormed.residual_minimize (h : d.WellFormed) (hs : s < d.stateCount)
    (hk : d.numberedBlocks.nodes[k]? = some (d.block s)) :
    d.minimize.residual k = d.residual s := by
  refine (residual_eq_of_rel
    (r := fun s k ↦ s < d.stateCount ∧ d.numberedBlocks.nodes[k]? = some (d.block s))
    ?_ ?_ ⟨hs, hk⟩).symm
  · rintro s k sym ⟨hs, hk⟩
    exact h.follow_rel_minimize hs hk sym
  · rintro s k ⟨hs, hk⟩
    exact h.isAccepting_minimize hs hk

theorem WellFormed.symbolLanguage_minimize (h : d.WellFormed) :
    d.minimize.symbolLanguage = d.symbolLanguage :=
  h.residual_minimize h.start_lt numberedBlocks_start

theorem WellFormed.exists_member_minimize (h : d.WellFormed) (hk : k < d.minimize.stateCount) :
    ∃ s < d.stateCount, d.numberedBlocks.nodes[k]? = some (d.block s) := by
  have hpos := Nat.zero_lt_of_lt h.start_lt
  rw [stateCount_minimize hpos] at hk
  have hnode := Array.getElem?_eq_getElem hk
  obtain ⟨s, hs, hblock⟩ := exists_member hpos hnode
  exact ⟨s, hs, hblock ▸ hnode⟩

def blockMembers (d : Dfa) (k : Nat) : Set Nat :=
  {s | s < d.stateCount ∧ d.numberedBlocks.nodes[k]? = some (d.block s)}

theorem eq_of_mem_blockMembers {j : Nat} (hk : s ∈ d.blockMembers k) (hj : s ∈ d.blockMembers j) :
    k = j :=
  numberedBlocks_valid.coherent.index_inj hk.2 hj.2

theorem WellFormed.walk_rel_minimize (h : d.WellFormed) (word : List Symbol) :
    Option.Rel (fun s k ↦ s ∈ d.blockMembers k) (d.walk? word) (d.minimize.walk? word) :=
  rel_foldlM (fun _ _ sym hs ↦ h.follow_rel_minimize hs.1 hs.2 sym)
    ⟨h.start_lt, numberedBlocks_start⟩ word

theorem leader_le (hs : s < d.stateCount) : d.leader (d.block s) ≤ s := by
  obtain ⟨i, block, hi, hmem, hblock⟩ := d.stablePartition.exists_blockOf hs
  obtain ⟨first, rest, rfl⟩ := List.exists_cons_of_ne_nil (List.ne_nil_of_mem hmem)
  have hleader : d.leader (d.block s) = first := by simp [leader, Dfa.block, hblock, hi]
  rw [hleader]
  rcases List.mem_cons.1 hmem with rfl | hrest
  · exact le_rfl
  · have hincreasing := d.stablePartition_increasing _ (List.mem_of_getElem? hi)
    exact (List.rel_of_pairwise_cons hincreasing hrest).le

theorem isLeast_leader {i : Nat} (hpos : 0 < d.stateCount)
    (hk : d.numberedBlocks.nodes[k]? = some i) :
    IsLeast (d.blockMembers k) (d.leader i) := by
  obtain ⟨s, hs, rfl⟩ := exists_member hpos hk
  have hsame := same_leader hs
  have hblock : d.block s = d.block (d.leader (d.block s)) :=
    (Partition.blockOf_eq_iff hs hsame.symm.lt_left).2 hsame
  refine ⟨⟨hsame.symm.lt_left, hblock ▸ hk⟩, ?_⟩
  rintro t ⟨ht, hkt⟩
  rw [Option.some.inj (hk.symm.trans hkt)]
  exact leader_le ht

/-- The edges that the numbering went along are those that the symbols of the alphabet follow. -/
theorem WellFormed.edge?_numberedBlocks (h : d.WellFormed) (hk : k < d.minimize.stateCount)
    (sym : Symbol) :
    Exploration.edge? d.numberedBlocks.rows k sym =
      if sym ∈ d.alphabet then d.minimize.follow? k sym else none := by
  obtain ⟨s, hs, hk⟩ := h.exists_member_minimize hk
  obtain ⟨r, hr, hstate, hrel⟩ := states_minimize (Nat.zero_lt_of_lt hs) hk
  rw [Exploration.edge?, hr, Option.bind_some]
  have hsym := hrel sym
  split
  · rename_i hmem
    rw [if_pos hmem] at hsym
    rw [follow?_of_states hstate]
    cases hget : r.get? sym with
    | some t => rfl
    | none =>
      have hnone := (eq_none_iff_of_rel hsym).1 hget
      rw [h.follow?_eq_or, Option.or_eq_none_iff] at hnone
      exact ((eq_none_iff_of_rel (hrel .any)).2 hnone.2).symm
  · rename_i hmem
    rw [if_neg hmem] at hsym
    exact (eq_none_iff_of_rel hsym).2 rfl

theorem WellFormed.edge?_numberedBlocks_iff (h : d.WellFormed) :
    Exploration.edge? d.numberedBlocks.rows k sym = some t ↔
      sym ∈ d.alphabet ∧ d.minimize.follow? k sym = some t := by
  have hpos := Nat.zero_lt_of_lt h.start_lt
  rcases Nat.lt_or_ge k d.minimize.stateCount with hk | hk
  · rw [h.edge?_numberedBlocks hk, Option.ite_none_right_eq_some]
  · constructor
    · intro hedge
      have hlt := (numberedBlocks_valid.edge_lt hedge).1
      rw [numberedBlocks_complete hpos, ← stateCount_minimize hpos] at hlt
      exact absurd hlt (Nat.not_lt.2 hk)
    · intro h'
      obtain ⟨-, hfollow⟩ := h'
      exact absurd (lt_of_follow? hfollow) (Nat.not_lt.2 hk)

theorem WellFormed.edge?_minimize (h : d.WellFormed) :
    d.minimize.edge? k sym = some t ↔ Exploration.edge? d.numberedBlocks.rows k sym = some t ∧
      (sym = .any ∨ Exploration.edge? d.numberedBlocks.rows k .any ≠ some t) := by
  have hpos := Nat.zero_lt_of_lt h.start_lt
  rcases Nat.lt_or_ge k d.minimize.stateCount with hk | hk
  · obtain ⟨s, hs, hk⟩ := h.exists_member_minimize hk
    obtain ⟨r, hr, hstate, -⟩ := states_minimize hpos hk
    simp only [edge?, Exploration.edge?, hstate, hr, Option.bind_some, get?_withoutRedundant]
  · rw [edge?, Array.getElem?_eq_none hk]
    rw [stateCount_minimize hpos, ← numberedBlocks_complete hpos] at hk
    simp [Exploration.edge?, Array.getElem?_eq_none hk]

theorem WellFormed.minimize_wellFormed (h : d.WellFormed) : d.minimize.WellFormed where
  start_lt := by
    rw [stateCount_minimize (Nat.zero_lt_of_lt h.start_lt)]
    exact (Array.getElem?_eq_some_iff.1 numberedBlocks_start).1
  target_lt k sym t ht := by
    rw [stateCount_minimize (Nat.zero_lt_of_lt h.start_lt)]
    exact (numberedBlocks_valid.edge_lt (h.edge?_minimize.1 ht).1).2
  label_mem k sym t ht := (h.edge?_numberedBlocks_iff.1 (h.edge?_minimize.1 ht).1).1

theorem Trim.minimize_trim (h : d.Trim) : d.minimize.Trim where
  toWellFormed := h.minimize_wellFormed
  reached k hk := by
    have hpos := Nat.zero_lt_of_lt h.start_lt
    refine exists_walk?_of_valid numberedBlocks_valid rfl (fun i sym j hedge ↦ ?_)
      (stateCount_minimize hpos ▸ hk)
    exact h.edge?_numberedBlocks_iff.1 hedge
  live k hk := by
    obtain ⟨s, hs, hk⟩ := h.exists_member_minimize hk
    rw [h.residual_minimize hs hk]
    exact h.live s hs

theorem Trim.minimize_reduced (h : d.Trim) : d.minimize.Reduced where
  toTrim := h.minimize_trim
  injective i hi j hj heq := by
    obtain ⟨s, hs, hi⟩ := h.exists_member_minimize hi
    obtain ⟨t, ht, hj⟩ := h.exists_member_minimize hj
    rw [h.residual_minimize hs hi, h.residual_minimize ht hj] at heq
    have hblock : d.block s = d.block t :=
      (Partition.blockOf_eq_iff hs ht).2 (h.same_of_residual_eq hs ht heq)
    exact numberedBlocks_valid.coherent.index_inj hi (hblock ▸ hj)

end BytePatterns.Dfa
