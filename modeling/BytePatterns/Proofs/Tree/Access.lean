import BytePatterns.Proofs.Dfa.Numbering
import BytePatterns.Proofs.Tree.Automata

namespace BytePatterns

namespace Nfa

theorem toDfa_breadthFirst (n : Nfa) : n.toDfa.BreadthFirst :=
  Dfa.breadthFirst_of_valid subsets_valid rfl stateCount_toDfa fun _ hk sym ↦ edge?_subsets hk sym

end Nfa

namespace Dfa

variable {d : Dfa} {i j k s : Nat} {u v : List Symbol}

structure AccessWord (d : Dfa) (k : Nat) (u : List Symbol) : Prop where
  symbols_mem : ∀ sym ∈ u, sym ∈ d.alphabet
  walk_eq : d.walk? u = some k
  first : ∀ v, (∀ sym ∈ v, sym ∈ d.alphabet) → d.walk? v = some k → u = v ∨ Earlier u v

theorem AccessWord.unique (hu : d.AccessWord k u) (hv : d.AccessWord k v) : u = v := by
  rcases hu.first v hv.symbols_mem hv.walk_eq with heq | huv
  · exact heq
  · rcases hv.first u hu.symbols_mem hu.walk_eq with heq | hvu
    · exact heq.symm
    · exact absurd hvu (Std.Asymm.asymm _ _ huv)

theorem BreadthFirst.exists_accessWord (h : d.BreadthFirst) (htrim : d.Trim)
    (hk : k < d.stateCount) :
    ∃ u, d.AccessWord k u ∧ ∀ j v, d.AccessWord j v → k < j → Earlier u v := by
  obtain ⟨u, hu, hwalk, hearliest⟩ := h.exists_earliest htrim hk
  refine ⟨u, ⟨hu, hwalk, fun v hv hwalk' ↦ hearliest v hv k hwalk' le_rfl⟩, ?_⟩
  intro j v hv hlt
  rcases hearliest v hv.symbols_mem j hv.walk_eq hlt.le with rfl | hearlier
  · exact absurd (Option.some.inj (hwalk.symm.trans hv.walk_eq)) hlt.ne
  · exact hearlier

theorem BreadthFirst.earlier_of_lt (h : d.BreadthFirst) (htrim : d.Trim) (hi : d.AccessWord i u)
    (hj : d.AccessWord j v) (hlt : i < j) : Earlier u v := by
  obtain ⟨u', hu', hbefore⟩ := h.exists_accessWord htrim (htrim.walk?_lt hi.walk_eq)
  rw [hi.unique hu']
  exact hbefore j v hj hlt

theorem BreadthFirst.lt_iff_earlier (h : d.BreadthFirst) (htrim : d.Trim) (hi : d.AccessWord i u)
    (hj : d.AccessWord j v) : i < j ↔ Earlier u v := by
  refine ⟨h.earlier_of_lt htrim hi hj, fun huv ↦ ?_⟩
  by_contra hle
  rcases Nat.eq_or_lt_of_le (Nat.not_lt.1 hle) with rfl | hlt
  · rw [hi.unique hj] at huv
    exact Std.Asymm.asymm _ _ huv huv
  · exact Std.Asymm.asymm _ _ huv (h.earlier_of_lt htrim hj hi hlt)

structure ShortlexNumbered (d : Dfa) : Prop where
  existsUnique : ∀ k < d.stateCount, ∃! u, d.AccessWord k u
  lt_iff : ∀ i j u v, d.AccessWord i u → d.AccessWord j v → (i < j ↔ Earlier u v)

theorem BreadthFirst.shortlexNumbered (h : d.BreadthFirst) (htrim : d.Trim) :
    d.ShortlexNumbered where
  existsUnique k hk := by
    obtain ⟨u, hu, -⟩ := h.exists_accessWord htrim hk
    exact ⟨u, hu, fun v hv ↦ hv.unique hu⟩
  lt_iff _ _ _ _ hi hj := h.lt_iff_earlier htrim hi hj

/-- The access word of a block leads to a member of it, and is the access word of this member. -/
theorem WellFormed.exists_member_of_accessWord (h : d.WellFormed) (hu : d.minimize.AccessWord k u) :
    ∃ s ∈ d.blockMembers k, d.AccessWord s u := by
  obtain ⟨s, hs, hmem⟩ := exists_left_of_rel (h.walk_rel_minimize u) hu.walk_eq
  refine ⟨s, hmem, hu.symbols_mem, hs, ?_⟩
  intro v hv hwalk
  obtain ⟨j, hj, hmem'⟩ := exists_right_of_rel (h.walk_rel_minimize v) hwalk
  obtain rfl := eq_of_mem_blockMembers hmem hmem'
  exact hu.first v hv hj

theorem BreadthFirst.accessWord_of_isLeast (h : d.BreadthFirst) (htrim : d.Trim)
    (hs : IsLeast (d.blockMembers k) s) (hu : d.minimize.AccessWord k u) : d.AccessWord s u := by
  obtain ⟨t, ht, htu⟩ := htrim.exists_member_of_accessWord hu
  suffices heq : s = t by rwa [heq]
  by_contra hne
  have hlt : s < t := Nat.lt_of_le_of_ne (hs.2 ht) hne
  obtain ⟨v, hv, -⟩ := h.exists_accessWord htrim hs.1.1
  obtain ⟨j, hj, hmem⟩ := exists_right_of_rel (htrim.walk_rel_minimize v) hv.walk_eq
  obtain rfl := eq_of_mem_blockMembers hs.1 hmem
  -- the word of the smaller member would come before the first word of the block
  have hvu := h.earlier_of_lt htrim hv htu hlt
  rcases hu.first v hv.symbols_mem hj with rfl | huv
  · exact Std.Asymm.asymm _ _ hvu hvu
  · exact Std.Asymm.asymm _ _ hvu huv

theorem BreadthFirst.isLeast_lt (h : d.BreadthFirst) (htrim : d.Trim)
    (hi : i < d.minimize.stateCount) (hj : j < d.minimize.stateCount) (hij : i < j) {t : Nat}
    (hs : IsLeast (d.blockMembers i) s) (ht : IsLeast (d.blockMembers j) t) : s < t := by
  have hfirst := htrim.minimize_breadthFirst
  obtain ⟨u, hu, -⟩ := hfirst.exists_accessWord htrim.minimize_trim hi
  obtain ⟨v, hv, -⟩ := hfirst.exists_accessWord htrim.minimize_trim hj
  have huv := hfirst.earlier_of_lt htrim.minimize_trim hu hv hij
  exact (h.lt_iff_earlier htrim (h.accessWord_of_isLeast htrim hs hu)
    (h.accessWord_of_isLeast htrim ht hv)).2 huv

def leaders (d : Dfa) : List Nat := d.numberedBlocks.nodes.toList.map d.leader

/-- The first member of a block is its smallest one, and these increase with the numbers of the
blocks. -/
structure LeadersIncrease (d : Dfa) : Prop where
  length_eq : d.leaders.length = d.minimize.stateCount
  isLeast : ∀ k s, d.leaders[k]? = some s → IsLeast (d.blockMembers k) s
  increasing : d.leaders.Pairwise (· < ·)

theorem BreadthFirst.leadersIncrease (h : d.BreadthFirst) (htrim : d.Trim) : d.LeadersIncrease := by
  have hpos := Nat.zero_lt_of_lt htrim.start_lt
  have hlength : d.leaders.length = d.minimize.stateCount := by
    rw [stateCount_minimize hpos, leaders, List.length_map, Array.length_toList]
  have hleast (k s : Nat) (hs : d.leaders[k]? = some s) : IsLeast (d.blockMembers k) s := by
    rw [leaders, List.getElem?_map, Option.map_eq_some_iff] at hs
    obtain ⟨i, hi, rfl⟩ := hs
    exact isLeast_leader hpos (by rwa [Array.getElem?_toList] at hi)
  refine ⟨hlength, hleast, List.pairwise_iff_getElem.2 fun i j hi hj hij ↦ ?_⟩
  exact h.isLeast_lt htrim (hlength ▸ hi) (hlength ▸ hj) hij
    (hleast i _ (List.getElem?_eq_getElem hi))
    (hleast j _ (List.getElem?_eq_getElem hj))

end Dfa

/-- In the automata of a tree the numbers of the states are the order of their access
words, and the blocks that minimization makes of the states of the subset automaton are
numbered by their smallest members. -/
theorem Tree.automata_shortlexNumbered (t : Tree) :
    (∀ d ∈ t.automata, d.ShortlexNumbered) ∧ t.toNfa.toDfa.LeadersIncrease := by
  refine ⟨fun d hd ↦ ?_, t.toNfa.toDfa_breadthFirst.leadersIncrease t.toDfa_trim⟩
  rcases List.mem_pair.1 hd with rfl | rfl
  · exact t.toNfa.toDfa_breadthFirst.shortlexNumbered t.toDfa_trim
  · exact t.toDfa_trim.minimize_breadthFirst.shortlexNumbered t.toDfa_trim.minimize_trim

end BytePatterns
