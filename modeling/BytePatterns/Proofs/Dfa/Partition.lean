import BytePatterns.Dfa.Minimal
import BytePatterns.Proofs.Dfa.Run

namespace BytePatterns

section groupsBy

variable {α κ : Type} [DecidableEq κ] {key : α → κ}

theorem same_groupsBy {items : List α} {a b : α} :
    (∃ group ∈ groupsBy key items, a ∈ group ∧ b ∈ group) ↔
      a ∈ items ∧ b ∈ items ∧ key a = key b := by
  fun_induction groupsBy key items with
  | case1 => simp
  | case2 c rest separated ih =>
    have hfirst (x : α) : x ∈ c :: separated.1 ↔ x ∈ c :: rest ∧ key x = key c := by
      simp only [separated, separate, List.partition_eq_filter_filter, List.mem_cons,
        List.mem_filter, decide_eq_true_eq, or_and_right]
      exact or_congr ⟨fun h ↦ ⟨h, h ▸ rfl⟩, fun h ↦ h.1⟩ Iff.rfl
    have hsecond (x : α) : x ∈ separated.2 ↔ x ∈ c :: rest ∧ key x ≠ key c := by
      simp only [separated, separate, List.partition_eq_filter_filter, List.mem_cons,
        List.mem_filter, Function.comp_apply, Bool.not_eq_true', decide_eq_false_iff_not]
      constructor
      · exact fun h ↦ ⟨.inr h.1, h.2⟩
      · intro h'
        obtain ⟨rfl | h, hne⟩ := h'
        · exact absurd rfl hne
        · exact ⟨h, hne⟩
    simp only [List.exists_mem_cons_iff, ih, hfirst, hsecond]
    constructor
    · intro h'
      rcases h' with ⟨⟨ha, hka⟩, hb, hkb⟩ | ⟨⟨ha, -⟩, ⟨hb, -⟩, heq⟩
      · exact ⟨ha, hb, hka.trans hkb.symm⟩
      · exact ⟨ha, hb, heq⟩
    · intro h'
      obtain ⟨ha, hb, heq⟩ := h'
      by_cases hka : key a = key c
      · exact .inl ⟨⟨ha, hka⟩, hb, heq ▸ hka⟩
      · exact .inr ⟨⟨ha, hka⟩, ⟨hb, heq ▸ hka⟩, heq⟩

theorem sublist_of_mem_groupsBy {items group : List α} (h : group ∈ groupsBy key items) :
    group.Sublist items := by
  fun_induction groupsBy key items with
  | case1 => simp at h
  | case2 a rest separated ih =>
    have hfirst : separated.1.Sublist rest := by
      simp only [separated, separate, List.partition_eq_filter_filter]
      exact List.filter_sublist
    have hsecond : separated.2.Sublist rest := by
      simp only [separated, separate, List.partition_eq_filter_filter]
      exact List.filter_sublist
    rcases List.mem_cons.1 h with rfl | h
    · exact hfirst.cons_cons a
    · exact ((ih h).trans hsecond).cons a

theorem length_pos_groupsBy (key : α → κ) {items : List α} (h : items ≠ []) :
    1 ≤ (groupsBy key items).length := by
  cases items with
  | nil => exact absurd rfl h
  | cons a rest => simp [groupsBy]

theorem length_le_length_flatMap (key : α → κ) {blocks : List (List α)}
    (h : ∀ block ∈ blocks, block ≠ []) :
    blocks.length ≤ (blocks.flatMap (groupsBy key)).length := by
  induction blocks with
  | nil => simp
  | cons block rest ih =>
    have first := length_pos_groupsBy key (h block List.mem_cons_self)
    have others := ih fun b hb ↦ h b (List.mem_cons_of_mem _ hb)
    simp only [List.length_cons, List.flatMap_cons, List.length_append]
    omega

theorem length_groupsBy_le_one {blocks : List (List α)} (h : ∀ block ∈ blocks, block ≠ [])
    (hle : (blocks.flatMap (groupsBy key)).length ≤ blocks.length) :
    ∀ block ∈ blocks, (groupsBy key block).length ≤ 1 := by
  induction blocks with
  | nil => simp
  | cons block rest ih =>
    have hrest : ∀ b ∈ rest, b ≠ [] := fun b hb ↦ h b (List.mem_cons_of_mem _ hb)
    have first := length_pos_groupsBy key (h block List.mem_cons_self)
    have others := length_le_length_flatMap key hrest
    simp only [List.length_cons, List.flatMap_cons, List.length_append] at hle
    intro b hb
    rcases List.mem_cons.1 hb with rfl | hb
    · omega
    · exact ih hrest (by omega) b hb

end groupsBy

namespace Partition

variable {size : Nat} {p : Partition size} {s t u i : Nat} {block : List Nat}

def Same (p : Partition size) (s t : Nat) : Prop := ∃ block ∈ p.blocks, s ∈ block ∧ t ∈ block

theorem exists_block (p : Partition size) (h : s < size) : ∃ block ∈ p.blocks, s ∈ block :=
  List.mem_flatten.1 (p.cover.mem_iff.2 (List.mem_range.2 h))

theorem lt_of_mem_block (hblock : block ∈ p.blocks) (h : s ∈ block) : s < size :=
  List.mem_range.1 (p.cover.mem_iff.1 (List.mem_flatten.2 ⟨block, hblock, h⟩))

theorem Same.lt_left (h : p.Same s t) : s < size := by
  obtain ⟨block, hblock, hs, -⟩ := h
  exact lt_of_mem_block hblock hs

theorem Same.symm (h : p.Same s t) : p.Same t s := by
  obtain ⟨block, hblock, hs, ht⟩ := h
  exact ⟨block, hblock, ht, hs⟩

theorem nodup_flatten (p : Partition size) : p.blocks.flatten.Nodup :=
  p.cover.nodup_iff.2 List.nodup_range

theorem getElem?_foldl_set (block : List Nat) (i : Nat) (table : Array Nat) (s : Nat) :
    (block.foldl (·.setIfInBounds · i) table)[s]? =
      if s ∈ block ∧ s < table.size then some i else table[s]? := by
  induction block generalizing table with
  | nil => simp
  | cons r rest ih =>
    rw [List.foldl_cons, ih, Array.size_setIfInBounds, Array.getElem?_setIfInBounds]
    by_cases hr : r = s
    · by_cases hs : s < table.size
      · simp [hr, hs]
      · simp [hr, hs]
    · simp [hr, Ne.symm hr]

theorem size_foldl_set (block : List Nat) (i : Nat) (table : Array Nat) :
    (block.foldl (·.setIfInBounds · i) table).size = table.size := by
  induction block generalizing table with
  | nil => rfl
  | cons r rest ih => rw [List.foldl_cons, ih, Array.size_setIfInBounds]

theorem getElem?_foldl_blocks_of_not_mem {blocks : List (List Nat)} (start : Nat)
    {table : Array Nat} (h : s ∉ blocks.flatten) :
    ((blocks.zipIdx start).foldl (fun table (block, i) ↦ block.foldl (·.setIfInBounds · i) table)
      table)[s]? = table[s]? := by
  induction blocks generalizing start table with
  | nil => rfl
  | cons block rest ih =>
    obtain ⟨hblock, hrest⟩ : s ∉ block ∧ s ∉ rest.flatten := by simpa [not_or] using h
    rw [List.zipIdx_cons, List.foldl_cons, ih _ hrest, getElem?_foldl_set]
    simp [hblock]

theorem getElem?_foldl_blocks {blocks : List (List Nat)} (start : Nat) {table : Array Nat}
    (nodup : blocks.flatten.Nodup) (hblock : blocks[i]? = some block) (hmem : s ∈ block)
    (hs : s < table.size) :
    ((blocks.zipIdx start).foldl (fun table (block, i) ↦ block.foldl (·.setIfInBounds · i) table)
      table)[s]? = some (start + i) := by
  induction blocks generalizing start table i with
  | nil => simp at hblock
  | cons first rest ih =>
    rw [List.zipIdx_cons, List.foldl_cons]
    rw [List.flatten_cons, List.nodup_append] at nodup
    obtain ⟨-, hnodup, hdisjoint⟩ := nodup
    cases i with
    | zero =>
      obtain rfl : first = block := by simpa using hblock
      have hrest : s ∉ rest.flatten := fun h ↦ hdisjoint s hmem s h rfl
      rw [getElem?_foldl_blocks_of_not_mem _ hrest, getElem?_foldl_set, if_pos ⟨hmem, hs⟩,
        Nat.add_zero]
    | succ i =>
      rw [ih (start + 1) hnodup (by simpa using hblock) (by rwa [size_foldl_set]),
        Nat.add_right_comm, Nat.add_assoc]

theorem blockOf_of_mem (hblock : p.blocks[i]? = some block) (hs : s ∈ block) :
    p.blockOf[s]? = some i := by
  have hlt := lt_of_mem_block (List.mem_of_getElem? hblock) hs
  have hsize : s < (Array.replicate size 0).size := by simpa
  have h := getElem?_foldl_blocks 0 p.nodup_flatten hblock hs hsize
  rwa [Nat.zero_add] at h

theorem blockOf_of_le (p : Partition size) (h : size ≤ s) : p.blockOf[s]? = none := by
  have hmem : s ∉ p.blocks.flatten := fun hs ↦
    Nat.not_lt.2 h (List.mem_range.1 (p.cover.mem_iff.1 hs))
  rw [blockOf, getElem?_foldl_blocks_of_not_mem 0 hmem]
  exact Array.getElem?_eq_none (by simpa)

theorem exists_blockOf (p : Partition size) (h : s < size) :
    ∃ i block, p.blocks[i]? = some block ∧ s ∈ block ∧ p.blockOf[s]? = some i := by
  obtain ⟨block, hblock, hs⟩ := p.exists_block h
  obtain ⟨i, hi⟩ := List.mem_iff_getElem?.1 hblock
  exact ⟨i, block, hi, hs, blockOf_of_mem hi hs⟩

theorem blockOf_eq_iff (hs : s < size) (ht : t < size) :
    p.blockOf[s]?.getD 0 = p.blockOf[t]?.getD 0 ↔ p.Same s t := by
  obtain ⟨i, block, hi, hsi, hs⟩ := p.exists_blockOf hs
  constructor
  · intro heq
    obtain ⟨j, block', hj, htj, ht⟩ := p.exists_blockOf ht
    obtain rfl : i = j := by simpa [hs, ht] using heq
    obtain rfl : block = block' := Option.some.inj (hi.symm.trans hj)
    exact ⟨block, List.mem_of_getElem? hi, hsi, htj⟩
  · intro h
    obtain ⟨block', hblock', hs', ht'⟩ := h
    obtain ⟨j, hj⟩ := List.mem_iff_getElem?.1 hblock'
    rw [blockOf_of_mem hj hs', blockOf_of_mem hj ht']

theorem map_blockOf_eq_iff {x y : Option Nat} (hx : ∀ s, x = some s → s < size)
    (hy : ∀ t, y = some t → t < size) :
    x.map (p.blockOf[·]?.getD 0) = y.map (p.blockOf[·]?.getD 0) ↔ Option.Rel p.Same x y := by
  constructor
  · intro heq
    cases x with
    | none =>
      cases y with
      | none => exact .none
      | some t => simp at heq
    | some s =>
      cases y with
      | none => simp at heq
      | some t => exact .some ((blockOf_eq_iff (hx s rfl) (hy t rfl)).1 (by simpa using heq))
  · intro h'
    rcases h' with h | _
    · exact congrArg some ((blockOf_eq_iff (hx _ rfl) (hy _ rfl)).2 h)
    · rfl

theorem same_splitBy {κ : Type} [DecidableEq κ] {key : Nat → κ} :
    (p.splitBy key).Same s t ↔ p.Same s t ∧ key s = key t := by
  constructor
  · intro h
    obtain ⟨group, hgroup, hs, ht⟩ := h
    obtain ⟨block, hblock, hmem⟩ := List.mem_flatMap.1 hgroup
    obtain ⟨hs, ht, heq⟩ := same_groupsBy.1 ⟨group, hmem, hs, ht⟩
    exact ⟨⟨block, hblock, hs, ht⟩, heq⟩
  · intro h
    obtain ⟨⟨block, hblock, hs, ht⟩, heq⟩ := h
    obtain ⟨group, hgroup, hs, ht⟩ := same_groupsBy.2 ⟨hs, ht, heq⟩
    exact ⟨group, List.mem_flatMap.2 ⟨block, hblock, hgroup⟩, hs, ht⟩

theorem key_eq_of_blockCount_le {κ : Type} [DecidableEq κ] {key : Nat → κ}
    (h : (p.splitBy key).blockCount ≤ p.blockCount) (hsame : p.Same s t) : key s = key t := by
  obtain ⟨block, hblock, hs, ht⟩ := hsame
  have hone := length_groupsBy_le_one p.nonempty h block hblock
  have mem_group {u : Nat} (hu : u ∈ block) : ∃ group ∈ groupsBy key block, u ∈ group := by
    obtain ⟨group, hgroup, hu, -⟩ : ∃ group ∈ groupsBy key block, u ∈ group ∧ u ∈ group :=
      same_groupsBy.2 ⟨hu, hu, rfl⟩
    exact ⟨group, hgroup, hu⟩
  obtain ⟨group, hgroup, hs⟩ := mem_group hs
  obtain ⟨group', hgroup', ht⟩ := mem_group ht
  obtain rfl : group = group' := by
    match groupsBy key block, hone, hgroup, hgroup' with
    | [only], _, hgroup, hgroup' =>
      exact (List.mem_singleton.1 hgroup).trans (List.mem_singleton.1 hgroup').symm
  exact (same_groupsBy.1 ⟨group, hgroup, hs, ht⟩).2.2

def Increasing (p : Partition size) : Prop := ∀ block ∈ p.blocks, block.Pairwise (· < ·)

theorem increasing_bipartition (size : Nat) (condition : Nat → Bool) :
    (bipartition size condition).Increasing := by
  intro block hblock
  have hsub : block.Sublist (List.range size) := by
    simp only [bipartition, List.mem_filter, List.mem_pair] at hblock
    rcases hblock.1 with rfl | rfl
    · exact List.filter_sublist
    · exact List.filter_sublist
  exact List.pairwise_lt_range.sublist hsub

theorem Increasing.splitBy {κ : Type} [DecidableEq κ] (h : p.Increasing) (key : Nat → κ) :
    (p.splitBy key).Increasing := by
  intro group hgroup
  obtain ⟨block, hblock, hmem⟩ := List.mem_flatMap.1 hgroup
  exact (h block hblock).sublist (sublist_of_mem_groupsBy hmem)

theorem same_bipartition {condition : Nat → Bool} (hs : s < size) (ht : t < size) :
    (bipartition size condition).Same s t ↔ condition s = condition t := by
  have hblock (block : List Nat) (h : s ∈ block) : block ∈ (bipartition size condition).blocks ↔
      block = (List.range size).filter condition ∨
        block = (List.range size).filter (!condition ·) := by
    simp [bipartition, List.ne_nil_of_mem h]
  constructor
  · intro h'
    obtain ⟨block, hmem, hs, ht⟩ := h'
    rcases (hblock block hs).1 hmem with rfl | rfl <;> simp_all
  · intro heq
    cases hcondition : condition s with
    | true =>
      refine ⟨(List.range size).filter condition, (hblock _ ?_).2 (.inl rfl), ?_, ?_⟩ <;> simp_all
    | false =>
      refine ⟨(List.range size).filter (!condition ·), (hblock _ ?_).2 (.inr rfl), ?_, ?_⟩ <;>
        simp_all

theorem last_induction (refine : Partition size → Partition size) (p : Partition size)
    {motive : Partition size → Prop} (first : motive p) (step : ∀ q, motive q → motive (refine q)) :
    motive ((p.successors refine).getLastD p) := by
  fun_induction successors refine p with
  | case1 p q _ ih =>
    rw [List.getLastD_cons]
    exact ih (step p first)
  | case2 p q _ => exact first

theorem blockCount_refine_last (refine : Partition size → Partition size) (p : Partition size) :
    (refine ((p.successors refine).getLastD p)).blockCount ≤
      ((p.successors refine).getLastD p).blockCount := by
  fun_induction successors refine p with
  | case1 p q _ ih =>
    rw [List.getLastD_cons]
    exact ih
  | case2 p q h => exact Nat.not_lt.1 h

/-- What holds of the first partition and is kept by every pass holds after any number of passes. -/
theorem passes_induction {refine : Partition size → Partition size} {p q : Partition size} {k : Nat}
    {P : Nat → Partition size → Prop} (first : P 0 p) (step : ∀ k q, P k q → P (k + 1) (refine q))
    (h : (p :: p.successors refine)[k]? = some q) : P k q := by
  fun_induction successors refine p generalizing k P with
  | case1 =>
    rename_i ih
    cases k with
    | zero =>
      cases h
      exact first
    | succ k => exact ih (P := fun k q ↦ P (k + 1) q) (step 0 _ first) (fun k ↦ step (k + 1)) h
  | case2 =>
    cases k with
    | zero =>
      cases h
      exact first
    | succ k => cases h

theorem getElem?_length_successors (refine : Partition size → Partition size) (p : Partition size) :
    (p :: p.successors refine)[(p.successors refine).length]? =
      some ((p.successors refine).getLastD p) := by
  rw [List.getLastD_eq_getLast?, ← List.getLast?_cons, List.getLast?_eq_getElem?, List.length_cons,
    Nat.add_sub_cancel]

end Partition

namespace Dfa

variable {d : Dfa} {s t : Nat}

theorem signature_eq_iff {blockOf : Array Nat} :
    signature blockOf (d.column s) = signature blockOf (d.column t) ↔ ∀ sym ∈ d.alphabet,
      (d.follow? s sym).map (blockOf[·]?.getD 0) = (d.follow? t sym).map (blockOf[·]?.getD 0) := by
  simp only [signature, column, List.map_map]
  exact List.map_inj_left

theorem getD_signatures {blockOf : Array Nat} (hs : s < d.stateCount) :
    (d.columns.map (signature blockOf)).getD s [] = signature blockOf (d.column s) := by
  simp [columns, Array.getD_eq_getD_getElem?, hs]

theorem Closed.signature_eq_iff_rel (h : d.Closed) {p : Partition d.stateCount} :
    signature p.blockOf (d.column s) = signature p.blockOf (d.column t) ↔
      ∀ sym ∈ d.alphabet, Option.Rel p.Same (d.follow? s sym) (d.follow? t sym) := by
  rw [signature_eq_iff]
  apply forall₂_congr
  intro sym _
  exact Partition.map_blockOf_eq_iff (fun _ ↦ h.follow?_lt) (fun _ ↦ h.follow?_lt)

theorem Closed.same_refineBy (h : d.Closed) {p : Partition d.stateCount} (hs : s < d.stateCount)
    (ht : t < d.stateCount) :
    (refineBy d.columns p).Same s t ↔
      p.Same s t ∧ ∀ sym ∈ d.alphabet, Option.Rel p.Same (d.follow? s sym) (d.follow? t sym) := by
  rw [refineBy, Partition.same_splitBy, getD_signatures hs, getD_signatures ht,
    h.signature_eq_iff_rel]

theorem stablePartition_increasing (d : Dfa) : d.stablePartition.Increasing := by
  refine Partition.last_induction (refineBy d.columns) d.initialPartition ?_ fun q hq ↦ ?_
  · exact Partition.increasing_bipartition d.stateCount d.isAccepting
  · exact hq.splitBy _

/-- No symbol of the alphabet leads from a block of the last refinement to two of its blocks. -/
theorem Closed.follow_rel_of_same (h : d.Closed) (hsame : d.stablePartition.Same s t) :
    ∀ sym ∈ d.alphabet, Option.Rel d.stablePartition.Same (d.follow? s sym) (d.follow? t sym) := by
  have hkey := Partition.key_eq_of_blockCount_le
    (Partition.blockCount_refine_last (refineBy d.columns) d.initialPartition) hsame
  rw [getD_signatures hsame.lt_left, getD_signatures hsame.symm.lt_left] at hkey
  exact h.signature_eq_iff_rel.1 hkey

/-- Other symbols move like `any`, if at all. -/
theorem WellFormed.follow_rel_of_same (h : d.WellFormed) (hsame : d.stablePartition.Same s t)
    (sym : Symbol) :
    Option.Rel d.stablePartition.Same (d.follow? s sym) (d.follow? t sym) := by
  have hmem := h.toClosed.follow_rel_of_same hsame
  have hany : Option.Rel d.stablePartition.Same (d.follow? s .any) (d.follow? t .any) := by
    by_cases h' : .any ∈ d.alphabet
    · exact hmem .any h'
    · rw [h.follow?_any_of_not_mem h', h.follow?_any_of_not_mem h']
      exact .none
  by_cases h' : sym ∈ d.alphabet
  · exact hmem sym h'
  · rwa [h.follow?_of_not_mem h', h.follow?_of_not_mem h']

theorem Closed.isAccepting_eq_of_same (h : d.Closed) (hsame : d.stablePartition.Same s t) :
    d.isAccepting s = d.isAccepting t := by
  refine Partition.last_induction (refineBy d.columns) d.initialPartition
    (motive := fun q ↦ ∀ s t, q.Same s t → d.isAccepting s = d.isAccepting t) ?_ ?_ s t hsame
  · intro s t hsame
    exact (Partition.same_bipartition hsame.lt_left hsame.symm.lt_left).1 hsame
  · intro q ih s t hsame
    exact ih s t ((h.same_refineBy hsame.lt_left hsame.symm.lt_left).1 hsame).1

theorem Trim.same_of_residual_eq (h : d.Trim) (hs : s < d.stateCount) (ht : t < d.stateCount)
    (heq : d.residual s = d.residual t) : d.stablePartition.Same s t := by
  refine Partition.last_induction (refineBy d.columns) d.initialPartition
    (motive := fun q ↦
      ∀ s t, s < d.stateCount → t < d.stateCount → d.residual s = d.residual t → q.Same s t)
    ?_ ?_ s t hs ht heq
  · intro s t hs ht heq
    refine (Partition.same_bipartition hs ht).2 (Bool.eq_iff_iff.2 ?_)
    rw [← nil_mem_residual, heq, nil_mem_residual]
  · intro q ih s t hs ht heq
    refine (h.same_refineBy hs ht).2 ⟨ih s t hs ht heq, ?_⟩
    intro sym _
    have hrel := h.follow_rel_of_residual_eq heq sym
    cases hs' : d.follow? s sym <;> cases ht' : d.follow? t sym <;> rw [hs', ht'] at hrel
    · exact .none
    · cases hrel
    · cases hrel
    · cases hrel with
      | some heq' => exact .some (ih _ _ (h.follow?_lt hs') (h.follow?_lt ht') heq')

theorem Trim.same_stablePartition_iff (h : d.Trim) (hs : s < d.stateCount) (ht : t < d.stateCount) :
    d.stablePartition.Same s t ↔ d.residual s = d.residual t :=
  ⟨residual_eq_of_rel (fun _ _ sym hsame ↦ h.follow_rel_of_same hsame sym)
    fun _ _ hsame ↦ h.isAccepting_eq_of_same hsame, h.same_of_residual_eq hs ht⟩

end Dfa

end BytePatterns
