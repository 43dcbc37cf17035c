import BytePatterns.Proofs.Needle.Border

namespace BytePatterns.BorderTable

variable {t : BorderTable} {word : List UInt8} {sets : Nat → Set Nat} {n i k m : Nat}

theorem getElem?_entries (h : i < t.size) : t.entries[i]? = some (t.border? i) := by
  rw [border?, Array.getElem?_eq_getElem h, Option.join_some]

theorem Lists.entry_iff (h : t.Lists sets n) (hi : i < n) :
    t.entries[i]? = some (some k) ↔ IsGreatest (sets i) k := by
  rw [getElem?_entries (h.size_eq ▸ hi), Option.some.injEq, h.border?_eq_some_iff i hi]

/-- An entry is missing only where there is no border to list. -/
theorem Lists.missing_iff (h : t.Lists sets n) (hi : i < n) (hsets : sets i ⊆ borders word i) :
    t.entries[i]? = some none ↔ sets i = ∅ := by
  rw [getElem?_entries (h.size_eq ▸ hi), Option.some.injEq, Option.eq_none_iff_forall_ne_some,
    Set.eq_empty_iff_forall_notMem]
  refine ⟨fun hnone k hk ↦ ?_, fun hempty k hk ↦ ?_⟩
  · obtain ⟨m, hm⟩ := exists_isGreatest_of_mem_borders hsets hk
    exact hnone m ((h.border?_eq_some_iff i hi m).2 hm)
  · exact hempty k ((h.border?_eq_some_iff i hi k).1 hk).1

theorem borders_zero : borders word 0 = ∅ :=
  Set.eq_empty_iff_forall_notMem.2 fun _ ↦ not_mem_borders_zero

structure ListsBorders (t : BorderTable) (word : List UInt8) : Prop where
  size_eq : t.size = word.length + 1
  first_missing : t.entries[0]? = some none
  isGreatest : ∀ i, 0 < i → i ≤ word.length →
    ∃ k, t.entries[i]? = some (some k) ∧ IsGreatest (borders word i) k

theorem plain_listsBorders (word : List UInt8) : (plain word).ListsBorders word := by
  have hlists := lists_plain word
  refine ⟨hlists.size_eq, ?_, fun i hpos hi ↦ ?_⟩
  · exact (hlists.missing_iff (Nat.succ_pos _) subset_rfl).2 borders_zero
  · have hzero : 0 ∈ borders word i := zero_mem_borders hpos
    obtain ⟨k, hk⟩ := exists_isGreatest_of_mem_borders subset_rfl hzero
    exact ⟨k, (hlists.entry_iff (Nat.lt_succ_of_le hi)).2 hk, hk⟩

/-- The table of `ababaca`. -/
example : (plain [97, 98, 97, 98, 97, 99, 97]).entries =
    #[none, some 0, some 0, some 1, some 2, some 3, some 0, some 1] := by decide +kernel

theorem sharpBorders_zero : sharpBorders word 0 = ∅ :=
  Set.subset_eq_empty sharpBorders_subset borders_zero

/-- Behind the whole word no byte follows. -/
theorem sharpBorders_length : sharpBorders word word.length = borders word word.length := by
  refine sharpBorders_subset.antisymm fun k hk ↦ ⟨hk, ?_⟩
  rw [List.getElem?_eq_getElem hk.1, List.getElem?_eq_none (Nat.le_refl _)]
  exact Option.some_ne_none _

theorem isGreatest_sharpBorders_iff (h : IsGreatest (borders word i) m) :
    IsGreatest (sharpBorders word i) m ↔ word[m]? ≠ word[i]? :=
  ⟨fun hsharp ↦ hsharp.1.2, isGreatest_sharpBorders h⟩

/-- The tables agree at both ends. Between them the first table has the length of the
longest border that another byte follows, or none, and this differs from the longest border
exactly if the same byte follows. -/
structure Sharpens (t plain : BorderTable) (word : List UInt8) : Prop where
  size_eq : t.size = word.length + 1
  first_missing : t.entries[0]? = some none
  entry_iff : ∀ i, 0 < i → i < word.length → ∀ k,
    t.entries[i]? = some (some k) ↔ IsGreatest (sharpBorders word i) k
  missing_iff : ∀ i, 0 < i → i < word.length → (t.entries[i]? = some none ↔ sharpBorders word i = ∅)
  last_eq : word ≠ [] → t.entries[word.length]? = plain.entries[word.length]?
  replaced_iff : ∀ i, 0 < i → i < word.length → ∃ k, plain.entries[i]? = some (some k) ∧
    (t.entries[i]? ≠ plain.entries[i]? ↔ word[i]? = word[k]?)

theorem sharp_sharpens_plain (word : List UInt8) : (sharp word).Sharpens (plain word) word := by
  have hlists := lists_sharp word
  have hplain := plain_listsBorders word
  refine ⟨hlists.size_eq, ?_, fun i _ hi k ↦ ?_, fun i _ hi ↦ ?_, fun hword ↦ ?_,
    fun i hpos hi ↦ ?_⟩
  · exact (hlists.missing_iff (Nat.succ_pos _) sharpBorders_subset).2 sharpBorders_zero
  · exact hlists.entry_iff (Nat.lt_succ_of_lt hi)
  · exact hlists.missing_iff (Nat.lt_succ_of_lt hi) sharpBorders_subset
  · obtain ⟨k, hk, hlongest⟩ :=
      hplain.isGreatest word.length (List.length_pos_iff.2 hword) (Nat.le_refl _)
    rw [hk, hlists.entry_iff (Nat.lt_succ_self _), sharpBorders_length]
    exact hlongest
  · obtain ⟨k, hk, hlongest⟩ := hplain.isGreatest i hpos hi.le
    refine ⟨k, hk, ?_⟩
    rw [hk, ne_eq, hlists.entry_iff (Nat.lt_succ_of_lt hi), isGreatest_sharpBorders_iff hlongest,
      not_not, eq_comm]

/-- The sharpened table of `ababaca`. -/
example : (sharp [97, 98, 97, 98, 97, 99, 97]).entries =
    #[none, some 0, none, some 0, none, some 3, none, some 1] := by decide +kernel

end BytePatterns.BorderTable
