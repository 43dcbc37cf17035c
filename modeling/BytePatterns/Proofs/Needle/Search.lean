import BytePatterns.Needle
import BytePatterns.Proofs.Needle.Border

namespace BytePatterns

structure OccursAt (word text : List UInt8) (s : Nat) : Prop where
  stop_le : s + word.length ≤ text.length
  slice_eq : text.extract s (s + word.length) = word

def placesFrom (word text : List UInt8) (start : Nat) : Set Nat :=
  {s | start ≤ s ∧ OccursAt word text s}

variable {word text : List UInt8} {start s : Nat}

theorem occursAt_nil_iff : OccursAt [] text s ↔ s ≤ text.length := by
  refine ⟨OccursAt.stop_le, fun h ↦ ⟨h, ?_⟩⟩
  simp [List.extract_eq_take_drop]

theorem suffix_extract_iff (hs : start ≤ s) (hstop : s + word.length ≤ text.length) :
    word <:+ text.extract start (s + word.length) ↔ text.extract s (s + word.length) = word := by
  have hlength : (text.extract start (s + word.length)).length - word.length = s - start := by
    simp only [List.extract_eq_take_drop, List.length_take, List.length_drop]
    omega
  have hdrop :
      (text.extract start (s + word.length)).drop (s - start) =
        text.extract s (s + word.length) := by
    simp only [List.extract_eq_take_drop, List.drop_take, List.drop_drop]
    congr 1
    · omega
    · congr 1
      omega
  rw [List.suffix_iff_eq_drop, hlength, hdrop, eq_comm]

theorem isGreatest_overlaps_nil : IsGreatest (overlaps word []) 0 := by
  refine ⟨zero_mem_overlaps, fun k hmem ↦ ?_⟩
  obtain ⟨hk, hsuffix⟩ := hmem
  have hle := hsuffix.length_le
  simp only [List.length_take, List.length_nil] at hle
  omega

namespace Needle

variable {n : Needle} {read rest : List UInt8} {length offset : Nat}

structure Guided (n : Needle) (word : List UInt8) : Prop where
  word_eq : n.word = word.toArray
  guides : n.table.Guides word (word.length + 1)

theorem Guided.size_eq (h : n.Guided word) : n.word.size = word.length := by
  rw [h.word_eq, List.size_toArray]

theorem guided_ofWord (word : List UInt8) : (ofWord word).Guided word :=
  ⟨rfl, BorderTable.guides_sharp word⟩

/-- What has been read holds no occurrence, and the longest overlap with it counts as matched. -/
structure Reading (word read : List UInt8) (length offset : Nat) : Prop where
  longest : IsGreatest (overlaps word read) length
  length_lt : length < word.length
  read_le : read.length ≤ offset

theorem Reading.not_suffix (h : Reading word read length offset) : ¬word <:+ read := fun hsuffix ↦
  absurd (h.longest.2 (length_mem_overlaps_iff.2 hsuffix)) (Nat.not_le_of_lt h.length_lt)

theorem Guided.isGreatest_advance (h : n.Guided word) (hr : Reading word read length offset)
    (b : UInt8) :
    IsGreatest (overlaps word (read ++ [b])) (n.table.advance n.word length b) := by
  rw [h.word_eq]
  exact h.guides.isGreatest_advance (Nat.lt_succ_of_lt hr.length_lt) hr.longest.1 fun k hk _ ↦
    hr.longest.2 hk

/-- A byte that does not complete an occurrence leaves the search in the same condition. -/
theorem Guided.reading_advance (h : n.Guided word) (hr : Reading word read length offset)
    {b : UInt8} (hne : n.table.advance n.word length b ≠ word.length) :
    Reading word (read ++ [b]) (n.table.advance n.word length b) (offset + 1) := by
  have hlongest := h.isGreatest_advance hr b
  refine ⟨hlongest, Nat.lt_of_le_of_ne hlongest.1.1 hne, ?_⟩
  rw [List.length_append, List.length_singleton]
  exact Nat.succ_le_succ hr.read_le

theorem Guided.scan?_eq_some (h : n.Guided word) (hr : Reading word read length offset)
    (hs : n.scan? length offset rest = some s) :
    ∃ e ≤ rest.length, s + word.length = offset + e ∧ word <:+ read ++ rest.take e ∧
      ∀ e' < e, ¬word <:+ read ++ rest.take e' := by
  induction rest generalizing read length offset with
  | nil => simp [scan?] at hs
  | cons b rest ih =>
    have hnow : ¬word <:+ read ++ (b :: rest).take 0 := by simpa using hr.not_suffix
    have hlongest := h.isGreatest_advance hr b
    simp only [scan?, h.size_eq] at hs
    split at hs
    · rename_i hdone
      have hsuffix : word <:+ read ++ [b] := length_mem_overlaps_iff.1 (hdone ▸ hlongest.1)
      have hle := hsuffix.length_le
      have hread := hr.read_le
      rw [List.length_append, List.length_singleton] at hle
      rw [hdone, Option.some.injEq] at hs
      refine ⟨1, by simp, by omega, by simpa using hsuffix, fun e' he' ↦ ?_⟩
      obtain rfl : e' = 0 := by omega
      exact hnow
    · rename_i hgo
      obtain ⟨e, he, hstop, hsuffix, hfirst⟩ := ih (h.reading_advance hr hgo) hs
      refine ⟨e + 1, Nat.succ_le_succ he, by omega, by simpa using hsuffix, fun e' he' ↦ ?_⟩
      cases e' with
      | zero => exact hnow
      | succ e' => simpa using hfirst e' (Nat.lt_of_succ_lt_succ he')

theorem Guided.scan?_eq_none (h : n.Guided word) (hr : Reading word read length offset)
    (hs : n.scan? length offset rest = none) (e : Nat) : ¬word <:+ read ++ rest.take e := by
  induction rest generalizing read length offset e with
  | nil => simpa using hr.not_suffix
  | cons b rest ih =>
    cases e with
    | zero => simpa using hr.not_suffix
    | succ e =>
      simp only [scan?, h.size_eq] at hs
      split at hs
      · cases hs
      · rename_i hgo
        simpa using ih (h.reading_advance hr hgo) hs e

theorem reading_nil (hword : word ≠ []) (offset : Nat) : Reading word [] 0 offset :=
  ⟨isGreatest_overlaps_nil, List.length_pos_iff.2 hword, Nat.zero_le _⟩

theorem findAt?_of_eq_nil (h : n.Guided []) :
    n.findAt? text start = if start ≤ text.length then some start else none := by
  rw [findAt?, h.size_eq]
  rfl

theorem Guided.findAt?_of_ne_nil (h : n.Guided word) (hword : word ≠ []) :
    n.findAt? text start = n.scan? 0 start (text.drop start) := by
  rw [findAt?, if_neg]
  rwa [h.size_eq, List.length_eq_zero_iff]

theorem take_drop_eq_extract (start e : Nat) :
    (text.drop start).take e = text.extract start (start + e) := by
  rw [List.extract_eq_take_drop, Nat.add_sub_cancel_left]

/-- The word occurs at an offset if and only if it ends the text read when the occurrence is
over. -/
theorem mem_placesFrom_iff_suffix {e : Nat} (hword : word ≠ []) (hle : e ≤ (text.drop start).length)
    (hstop : s + word.length = start + e) :
    s ∈ placesFrom word text start ↔ word <:+ [] ++ (text.drop start).take e := by
  have hpos := List.length_pos_iff.2 hword
  rw [List.length_drop] at hle
  rw [List.nil_append, take_drop_eq_extract, ← hstop]
  refine ⟨fun hmem ↦ ?_, fun hsuffix ↦ ?_⟩
  · obtain ⟨hs, hoccurs⟩ := hmem
    exact (suffix_extract_iff hs hoccurs.stop_le).2 hoccurs.slice_eq
  · have hlength := hsuffix.length_le
    simp only [List.extract_eq_take_drop, List.length_take, List.length_drop] at hlength
    have hs : start ≤ s := by omega
    have hstop' : s + word.length ≤ text.length := by omega
    exact ⟨hs, hstop', (suffix_extract_iff hs hstop').1 hsuffix⟩

theorem exists_stop_of_mem_placesFrom (hs : s ∈ placesFrom word text start) :
    ∃ e ≤ (text.drop start).length, s + word.length = start + e := by
  obtain ⟨hle, hoccurs⟩ := hs
  have hstop := hoccurs.stop_le
  refine ⟨s + word.length - start, ?_, by omega⟩
  rw [List.length_drop]
  omega

theorem Guided.isLeast_of_findAt? (h : n.Guided word) (hs : n.findAt? text start = some s) :
    IsLeast (placesFrom word text start) s := by
  by_cases hword : word = []
  · subst hword
    rw [findAt?_of_eq_nil h] at hs
    split at hs
    · rename_i hle
      cases hs
      exact ⟨⟨le_rfl, occursAt_nil_iff.2 hle⟩, fun _ hs' ↦ hs'.1⟩
    · cases hs
  · rw [h.findAt?_of_ne_nil hword] at hs
    obtain ⟨e, hle, hstop, hsuffix, hfirst⟩ := h.scan?_eq_some (reading_nil hword start) hs
    refine ⟨(mem_placesFrom_iff_suffix hword hle hstop).2 hsuffix, fun s' hs' ↦ ?_⟩
    -- an earlier occurrence would have been over earlier
    by_contra hlt
    obtain ⟨e', hle', hstop'⟩ := exists_stop_of_mem_placesFrom hs'
    exact hfirst e' (by omega) ((mem_placesFrom_iff_suffix hword hle' hstop').1 hs')

theorem Guided.not_mem_of_findAt? (h : n.Guided word) (hs : n.findAt? text start = none) :
    s ∉ placesFrom word text start := by
  by_cases hword : word = []
  · subst hword
    rw [findAt?_of_eq_nil h] at hs
    intro hmem
    obtain ⟨hle, hoccurs⟩ := hmem
    rw [if_pos (hle.trans (occursAt_nil_iff.1 hoccurs))] at hs
    cases hs
  · rw [h.findAt?_of_ne_nil hword] at hs
    intro hmem
    obtain ⟨e, hle, hstop⟩ := exists_stop_of_mem_placesFrom hmem
    exact h.scan?_eq_none (reading_nil hword start) hs e
      ((mem_placesFrom_iff_suffix hword hle hstop).1 hmem)

structure FindsFirst (n : Needle) (word : List UInt8) : Prop where
  findAt?_eq_some_iff :
    ∀ text start s, n.findAt? text start = some s ↔ IsLeast (placesFrom word text start) s
  findAt?_eq_none_iff : ∀ text start,
    n.findAt? text start = none ↔ ∀ s, start ≤ s → ¬OccursAt word text s
  findAt?_of_empty : word = [] → ∀ text start,
    n.findAt? text start = if start ≤ text.length then some start else none

theorem Guided.findsFirst (h : n.Guided word) : n.FindsFirst word where
  findAt?_eq_some_iff text start s := by
    refine ⟨h.isLeast_of_findAt?, fun hs ↦ ?_⟩
    cases hfound : n.findAt? text start with
    | none => exact absurd hs.1 (h.not_mem_of_findAt? hfound)
    | some s' => rw [(h.isLeast_of_findAt? hfound).unique hs]
  findAt?_eq_none_iff text start := by
    refine ⟨fun hnone s hs hoccurs ↦ h.not_mem_of_findAt? hnone ⟨hs, hoccurs⟩, fun hno ↦ ?_⟩
    cases hfound : n.findAt? text start with
    | none => rfl
    | some s =>
      obtain ⟨⟨hs, hoccurs⟩, -⟩ := h.isLeast_of_findAt? hfound
      exact absurd hoccurs (hno s hs)
  findAt?_of_empty hword text start := findAt?_of_eq_nil (hword ▸ h)

theorem FindsFirst.findAt?_eq {n' : Needle} (h : n.FindsFirst word) (h' : n'.FindsFirst word)
    (text : List UInt8) (start : Nat) : n.findAt? text start = n'.findAt? text start := by
  apply Option.ext
  intro s
  rw [h.findAt?_eq_some_iff, h'.findAt?_eq_some_iff]

theorem exists_withTable? {table : BorderTable} (h : table.Guides word (word.length + 1))
    (hsize : table.size = word.length + 1) :
    ∃ n, withTable? word table = some n ∧ n.FindsFirst word := by
  have hsize' : table.size = word.toArray.size + 1 := hsize
  refine ⟨⟨word.toArray, table, hsize'⟩, ?_, ?_⟩
  · rw [withTable?, dif_pos hsize']
  · exact Guided.findsFirst ⟨rfl, h⟩

/-- A word can be searched with either of its tables, and both find its first occurrence. -/
theorem tables_findsFirst (word : List UInt8) :
    ∃ plain sharp, withTable? word (.plain word) = some plain ∧
      withTable? word (.sharp word) = some sharp ∧
      plain.FindsFirst word ∧ sharp.FindsFirst word ∧
      ∀ text start, plain.findAt? text start = sharp.findAt? text start := by
  obtain ⟨plain, hplain, hfirst⟩ :=
    exists_withTable? (BorderTable.guides_plain word) (BorderTable.size_plain word)
  obtain ⟨sharp, hsharp, hfirst'⟩ :=
    exists_withTable? (BorderTable.guides_sharp word) (BorderTable.size_sharp word)
  exact ⟨plain, sharp, hplain, hsharp, hfirst, hfirst', hfirst.findAt?_eq hfirst'⟩

end Needle

end BytePatterns
