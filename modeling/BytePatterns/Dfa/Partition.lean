import BytePatterns.Dfa

namespace BytePatterns

section groupsBy

variable {α κ : Type} [DecidableEq κ] (key : α → κ)

/-- The items with the given key, and the others. -/
def separate (k : κ) (items : List α) : List α × List α := items.partition (key · = k)

theorem length_separate_le (k : κ) (items : List α) :
    (separate key k items).2.length ≤ items.length := by
  rw [separate, List.partition_eq_filter_filter]
  exact List.length_filter_le _ _

theorem separate_perm (k : κ) (items : List α) :
    ((separate key k items).1 ++ (separate key k items).2).Perm items := by
  rw [separate, List.partition_eq_filter_filter]
  exact List.filter_append_perm _ _

/-- Groups of the items with equal keys, in the order in which the keys first occur. -/
def groupsBy : List α → List (List α)
  | [] => []
  | a :: rest =>
    let separated := separate key (key a) rest
    (a :: separated.1) :: groupsBy separated.2
termination_by items => items.length
decreasing_by exact Nat.lt_succ_of_le (length_separate_le key _ _)

theorem ne_nil_of_mem_groupsBy {items group : List α} (h : group ∈ groupsBy key items) :
    group ≠ [] := by
  fun_induction groupsBy key items with
  | case1 => simp at h
  | case2 a rest separated ih =>
    rcases List.mem_cons.1 h with rfl | h
    · simp
    · exact ih h

theorem flatten_groupsBy_perm (items : List α) : (groupsBy key items).flatten.Perm items := by
  fun_induction groupsBy key items with
  | case1 => simp
  | case2 a rest separated ih =>
    exact (((List.Perm.refl _).append ih).trans (separate_perm key (key a) rest)).cons a

end groupsBy

/-- Disjoint blocks, none of them empty, that hold the numbers below `size`. -/
structure Partition (size : Nat) where
  blocks : List (List Nat)
  nonempty : ∀ block ∈ blocks, block ≠ []
  cover : blocks.flatten.Perm (List.range size)

namespace Partition

variable {size : Nat}

def blockCount (p : Partition size) : Nat := p.blocks.length

theorem length_le_length_flatten {blocks : List (List Nat)} (h : ∀ block ∈ blocks, block ≠ []) :
    blocks.length ≤ blocks.flatten.length := by
  induction blocks with
  | nil => simp
  | cons block rest ih =>
    have first := List.length_pos_iff.2 (h block List.mem_cons_self)
    have others := ih fun b hb ↦ h b (List.mem_cons_of_mem _ hb)
    simp only [List.length_cons, List.flatten_cons, List.length_append]
    omega

theorem blockCount_le (p : Partition size) : p.blockCount ≤ size := by
  have h := length_le_length_flatten p.nonempty
  rwa [p.cover.length_eq, List.length_range] at h

/-- For each number the place of its block in the list. -/
def blockOf (p : Partition size) : Array Nat :=
  p.blocks.zipIdx.foldl (fun table (block, i) ↦ block.foldl (·.setIfInBounds · i) table)
    (Array.replicate size 0)

/-- The numbers that satisfy the condition, then the others. -/
def bipartition (size : Nat) (condition : Nat → Bool) : Partition size where
  blocks := [(List.range size).filter condition, (List.range size).filter (!condition ·)].filter
    (!·.isEmpty)
  nonempty := by simp +contextual
  cover := by
    refine List.Perm.trans ?_ (List.filter_append_perm condition (List.range size))
    rw [List.flatten_filter_not_isEmpty]
    simp

/-- Splits each block by the keys of its members. -/
def splitBy {κ : Type} [DecidableEq κ] (key : Nat → κ) (p : Partition size) : Partition size where
  blocks := p.blocks.flatMap (groupsBy key)
  nonempty := by
    intro group h
    obtain ⟨block, -, hg⟩ := List.mem_flatMap.1 h
    exact ne_nil_of_mem_groupsBy key hg
  cover := by
    refine List.Perm.trans ?_ p.cover
    induction p.blocks with
    | nil => simp
    | cons block rest ih =>
      simp only [List.flatMap_cons, List.flatten_append, List.flatten_cons]
      exact (flatten_groupsBy_perm key block).append ih

end Partition

end BytePatterns
