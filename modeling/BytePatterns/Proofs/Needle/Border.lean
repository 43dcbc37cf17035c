import BytePatterns.Needle.Border
import Mathlib.Data.Nat.SuccPred
import Mathlib.Order.SuccPred.Archimedean

namespace BytePatterns

def overlaps (word text : List UInt8) : Set Nat := {k | k ≤ word.length ∧ word.take k <:+ text}

def borders (word : List UInt8) (i : Nat) : Set Nat := {k | k < i ∧ word.take k <:+ word.take i}

def sharpBorders (word : List UInt8) (i : Nat) : Set Nat :=
  {k | k ∈ borders word i ∧ word[k]? ≠ word[i]?}

section borders

variable {word text : List UInt8} {i k m : Nat} {b : UInt8}

theorem zero_mem_overlaps : 0 ∈ overlaps word text := ⟨Nat.zero_le _, List.nil_suffix⟩

theorem length_mem_overlaps_iff : word.length ∈ overlaps word text ↔ word <:+ text := by
  simp [overlaps]

theorem succ_mem_overlaps_iff :
    k + 1 ∈ overlaps word (text ++ [b]) ↔ k ∈ overlaps word text ∧ word[k]? = some b := by
  refine ⟨fun h ↦ ?_, fun h ↦ ?_⟩
  · obtain ⟨hlt : k < word.length, before, hbefore⟩ := h
    rw [List.take_succ_eq_append_getElem hlt, ← List.append_assoc,
      List.append_singleton_inj] at hbefore
    obtain ⟨htext, hbyte⟩ := hbefore
    exact ⟨⟨hlt.le, before, htext⟩, by rw [List.getElem?_eq_getElem hlt, hbyte]⟩
  · obtain ⟨⟨-, before, hbefore⟩, hbyte⟩ := h
    obtain ⟨hlt, hbyte⟩ := List.getElem?_eq_some_iff.1 hbyte
    refine ⟨hlt, before, ?_⟩
    rw [List.take_succ_eq_append_getElem hlt, ← List.append_assoc, hbefore, hbyte]

/-- The overlaps after one more byte are those that the byte extends, and the empty one. -/
theorem isGreatest_overlaps_append_singleton (hm : m ∈ overlaps word (text ++ [b]))
    (hmax : ∀ k ∈ overlaps word text, word[k]? = some b → k < m) :
    IsGreatest (overlaps word (text ++ [b])) m := by
  refine ⟨hm, fun k hk ↦ ?_⟩
  cases k with
  | zero => exact Nat.zero_le _
  | succ k =>
    obtain ⟨hk, hbyte⟩ := succ_mem_overlaps_iff.1 hk
    exact hmax k hk hbyte

theorem mem_borders_of_suffix (hk : word.take k <:+ text) (hm : word.take m <:+ text)
    (hlt : k < m) : k ∈ borders word m := by
  refine ⟨hlt, List.suffix_of_suffix_length_le hk hm ?_⟩
  simp only [List.length_take]
  omega

/-- Where a byte cannot follow an overlap, it can follow only borders of it. -/
theorem mem_borders_of_next (hm : m ∈ overlaps word text) (hnot : word[m]? ≠ some b)
    (hk : k ∈ overlaps word text) (hkb : word[k]? = some b) (hle : k ≤ m) : k ∈ borders word m := by
  have hne : k ≠ m := fun heq ↦ hnot (heq ▸ hkb)
  exact mem_borders_of_suffix hk.2 hm.2 (Nat.lt_of_le_of_ne hle hne)

theorem zero_mem_borders (hi : 0 < i) : 0 ∈ borders word i := ⟨hi, List.nil_suffix⟩

theorem not_mem_borders_zero : k ∉ borders word 0 := fun hk ↦ Nat.not_lt_zero k hk.1

theorem exists_isGreatest_of_mem_borders {s : Set Nat} (hs : s ⊆ borders word i) (hk : k ∈ s) :
    ∃ m, IsGreatest s m :=
  BddAbove.exists_isGreatest_of_nonempty ⟨i, fun _ hj ↦ (hs hj).1.le⟩ ⟨k, hk⟩

/-- A border that is not the longest is a border of the longest one. -/
theorem mem_borders_iff_of_isGreatest (h : IsGreatest (borders word i) m) :
    k ∈ borders word i ↔ k = m ∨ k ∈ borders word m := by
  refine ⟨fun hk ↦ ?_, fun hk ↦ ?_⟩
  · rcases (h.2 hk).eq_or_lt with heq | hlt
    · exact .inl heq
    · exact .inr (mem_borders_of_suffix hk.2 h.1.2 hlt)
  · rcases hk with rfl | hk
    · exact h.1
    · exact ⟨hk.1.trans h.1.1, hk.2.trans h.1.2⟩

/-- The proper borders are the overlaps with what follows the first byte. -/
theorem overlaps_tail_take (hpos : 0 < i) (hi : i ≤ word.length) :
    overlaps word (word.take i).tail = borders word i := by
  ext k
  refine ⟨fun h ↦ ?_, fun h ↦ ?_⟩
  · have hsuffix := h.2
    have hle := hsuffix.length_le
    simp only [List.length_tail, List.length_take] at hle
    exact ⟨by omega, hsuffix.trans (List.tail_suffix _)⟩
  · obtain ⟨hk, hsuffix⟩ := h
    refine ⟨by omega, List.suffix_of_suffix_length_le hsuffix (List.tail_suffix _) ?_⟩
    simp only [List.length_tail, List.length_take]
    omega

theorem sharpBorders_subset : sharpBorders word i ⊆ borders word i := fun _ hk ↦ hk.1

theorem sharpBorders_eq_of_isGreatest (h : IsGreatest (borders word i) m)
    (heq : word[i]? = word[m]?) :
    sharpBorders word i = sharpBorders word m := by
  ext k
  refine ⟨fun hsharp ↦ ?_, fun hsharp ↦ ?_⟩
  · obtain ⟨hk, hne⟩ := hsharp
    rcases (mem_borders_iff_of_isGreatest h).1 hk with rfl | hk
    · exact absurd heq.symm hne
    · exact ⟨hk, heq ▸ hne⟩
  · obtain ⟨hk, hne⟩ := hsharp
    exact ⟨(mem_borders_iff_of_isGreatest h).2 (.inr hk), heq.symm ▸ hne⟩

theorem isGreatest_sharpBorders (h : IsGreatest (borders word i) m) (hne : word[m]? ≠ word[i]?) :
    IsGreatest (sharpBorders word i) m := ⟨⟨h.1, hne⟩, fun _ hk ↦ h.2 hk.1⟩

end borders

namespace BorderTable

variable {t : BorderTable} {word text : List UInt8} {sets : Nat → Set Nat} {n length : Nat}
  {b : UInt8}

/-- The table leads from a beginning of the word to borders of it, and from no border past another
one that is followed by a different byte than the beginning. -/
structure Guides (t : BorderTable) (word : List UInt8) (n : Nat) : Prop where
  mem : ∀ i < n, ∀ k, t.border? i = some k → k ∈ borders word i
  skipped : ∀ i < n, ∀ j ∈ borders word i, (∀ k, t.border? i = some k → k < j) → word[j]? = word[i]?

/-- From any overlap that can be extended no worse than the longest one, reading a byte leads to the
longest overlap behind this byte. -/
theorem Guides.isGreatest_advance (h : t.Guides word n) (hlt : length < n)
    (hmem : length ∈ overlaps word text)
    (hmax : ∀ k ∈ overlaps word text, word[k]? = some b → k ≤ length) :
    IsGreatest (overlaps word (text ++ [b])) (t.advance word.toArray length b) := by
  fun_induction advance t word.toArray length b with
  | case1 length hbyte =>
    rw [List.getElem?_toArray] at hbyte
    refine isGreatest_overlaps_append_singleton (succ_mem_overlaps_iff.2 ⟨hmem, hbyte⟩)
      fun k hk hkb ↦ ?_
    exact Nat.lt_succ_of_le (hmax k hk hkb)
  | case2 length hbyte shorter hshorter ih =>
    rw [List.getElem?_toArray] at hbyte
    have hborder := h.mem length hlt shorter hshorter
    have hmem' : shorter ∈ overlaps word text := ⟨hborder.1.le.trans hmem.1, hborder.2.trans hmem.2⟩
    refine ih (hborder.1.trans hlt) hmem' fun k hk hkb ↦ ?_
    -- a longer overlap would be a border that the table skips, so the byte does not extend it
    by_contra hlonger
    have hborders := mem_borders_of_next hmem hbyte hk hkb (hmax k hk hkb)
    have heq := h.skipped length hlt k hborders fun j hj ↦ by
      rw [hshorter] at hj
      cases hj
      exact Nat.lt_of_not_le hlonger
    exact hbyte (heq ▸ hkb)
  | case3 length hbyte hnone =>
    rw [List.getElem?_toArray] at hbyte
    refine isGreatest_overlaps_append_singleton zero_mem_overlaps fun k hk hkb ↦ ?_
    have heq := h.skipped length hlt k (mem_borders_of_next hmem hbyte hk hkb (hmax k hk hkb))
      (by simp [hnone])
    exact absurd (heq ▸ hkb) hbyte

structure Lists (t : BorderTable) (sets : Nat → Set Nat) (n : Nat) : Prop where
  size_eq : t.size = n
  border?_eq_some_iff : ∀ i < n, ∀ k, t.border? i = some k ↔ IsGreatest (sets i) k

theorem Lists.guides (h : t.Lists sets n) (hsets : ∀ i, sets i ⊆ borders word i)
    (hsharp : ∀ i, sharpBorders word i ⊆ sets i) : t.Guides word n where
  mem i hi k hk := hsets i ((h.border?_eq_some_iff i hi k).1 hk).1
  skipped i hi j hj hbelow := by
    by_contra hne
    have hmem := hsharp i ⟨hj, hne⟩
    obtain ⟨k, hk⟩ := exists_isGreatest_of_mem_borders (hsets i) hmem
    have hlt := hbelow k ((h.border?_eq_some_iff i hi k).2 hk)
    exact absurd (hk.2 hmem) (Nat.not_le_of_lt hlt)

theorem border?_push (value : Option Nat) (hvalue : ∀ k ∈ value, k < t.size) (i : Nat) :
    (t.push value hvalue).border? i = if i = t.size then value else t.border? i := by
  unfold border? push size
  rw [Array.getElem?_push]
  split <;> rfl

theorem Lists.push (h : t.Lists sets n) {value : Option Nat} (hvalue : ∀ k ∈ value, k < t.size)
    (hgreatest : ∀ k, value = some k ↔ IsGreatest (sets n) k) :
    (t.push value hvalue).Lists sets (n + 1) where
  size_eq := by rw [size_push, h.size_eq]
  border?_eq_some_iff i hi k := by
    rw [border?_push, h.size_eq]
    split
    · rename_i heq
      rw [heq, hgreatest]
    · exact h.border?_eq_some_iff i (by omega) k

theorem some_eq_some_iff_isGreatest {s : Set Nat} {m : Nat} (h : IsGreatest s m) (k : Nat) :
    some m = some k ↔ IsGreatest s k := by
  rw [Option.some.injEq]
  exact ⟨fun heq ↦ heq ▸ h, h.unique⟩

theorem lists_push_none (h : ∀ k, k ∉ sets 0) : (empty.push none (by simp)).Lists sets 1 := by
  have hempty : empty.Lists sets 0 := ⟨rfl, by simp⟩
  refine hempty.push _ fun k ↦ ?_
  simp only [reduceCtorEq, false_iff]
  exact fun hk ↦ h k hk.1

/-- The first byte has the empty border only. The borders of a longer beginning are the overlaps of
the word with what has been read behind its first byte. -/
theorem Lists.widen (h : t.Lists (borders word) (n + 1)) (hb : word[n]? = some b) :
    (t.widen word.toArray b).Lists (borders word) (n + 2) := by
  obtain ⟨hn, -⟩ := List.getElem?_eq_some_iff.1 hb
  have hsize := h.size_eq
  unfold BorderTable.widen
  rcases Nat.eq_zero_or_pos n with rfl | hpos
  · have hone : IsGreatest (borders word 1) 0 :=
      ⟨zero_mem_borders Nat.one_pos, fun k hk ↦ by have := hk.1; omega⟩
    rw [dif_neg (by omega), dif_pos (by omega)]
    exact h.push _ (some_eq_some_iff_isGreatest hone)
  · have hzero : 0 ∈ borders word n := zero_mem_borders hpos
    obtain ⟨l, hl⟩ := exists_isGreatest_of_mem_borders subset_rfl hzero
    have hlongest : t.longest = l := by
      rw [longest, hsize, Nat.add_sub_cancel, (h.border?_eq_some_iff n (by omega) l).2 hl,
        Option.getD_some]
    have hguides : t.Guides word (n + 1) :=
      h.guides (fun _ ↦ subset_rfl) fun _ ↦ sharpBorders_subset
    have hlt : l < n + 1 := hl.1.1.trans (Nat.lt_succ_self n)
    have htext : (word.take n).tail ++ [b] = (word.take (n + 1)).tail := by
      rw [List.take_add_one, hb, Option.toList_some, List.tail_append_of_ne_nil]
      rw [← List.length_pos_iff, List.length_take]
      omega
    rw [dif_pos (by omega)]
    refine h.push _ (some_eq_some_iff_isGreatest ?_)
    rw [hlongest, ← overlaps_tail_take (Nat.succ_pos n) hn, ← htext]
    rw [← overlaps_tail_take hpos hn.le] at hl
    exact hguides.isGreatest_advance hlt hl.1 fun k hk _ ↦ hl.2 hk

theorem Lists.foldl_widen {done rest : List UInt8} (hword : done ++ rest = word)
    (h : t.Lists (borders word) (done.length + 1)) :
    (rest.foldl (·.widen word.toArray ·) t).Lists (borders word) (word.length + 1) := by
  induction rest generalizing done t with
  | nil =>
    rw [List.append_nil] at hword
    exact hword ▸ h
  | cons b rest ih =>
    have hb : word[done.length]? = some b := by
      rw [← hword, List.getElem?_append_right (Nat.le_refl _), Nat.sub_self,
        List.getElem?_cons_zero]
    have hword' : (done ++ [b]) ++ rest = word := by simp [hword]
    refine ih hword' ?_
    rw [List.length_append, List.length_singleton]
    exact h.widen hb

theorem lists_plain (word : List UInt8) : (plain word).Lists (borders word) (word.length + 1) :=
  Lists.foldl_widen (List.nil_append word) (lists_push_none fun _ ↦ not_mem_borders_zero)

/-- The entry that the plain table has is kept or replaced by an earlier sharpened one. -/
theorem Lists.sharpen (h : t.Lists (sharpBorders word) n) (hn : n ≤ word.length)
    {value : Option Nat} (hvalue : ∀ k, value = some k ↔ IsGreatest (borders word n) k) :
    (BorderTable.sharpen word.toArray t value).Lists (sharpBorders word) (n + 1) := by
  unfold BorderTable.sharpen
  cases value with
  | none =>
    refine h.push _ fun k ↦ ?_
    simp only [reduceCtorEq, false_iff]
    intro hk
    obtain ⟨m, hm⟩ := exists_isGreatest_of_mem_borders subset_rfl hk.1.1
    cases (hvalue m).2 hm
  | some m =>
    have hm := (hvalue m).1 rfl
    have hlt : m < n := hm.1.1
    simp only [h.size_eq, hlt, dif_pos]
    refine h.push _ fun k ↦ ?_
    simp only [sharpened, h.size_eq, List.size_toArray, List.getElem?_toArray]
    split
    · rename_i hsame
      rw [h.border?_eq_some_iff m hlt, sharpBorders_eq_of_isGreatest hm hsame.2]
    · rename_i hdiffers
      have hne : word[m]? ≠ word[n]? := by
        intro heq
        refine hdiffers ⟨?_, heq.symm⟩
        rw [List.getElem?_eq_getElem (hlt.trans_le hn)] at heq
        exact (List.getElem?_eq_some_iff.1 heq.symm).1
      exact some_eq_some_iff_isGreatest (isGreatest_sharpBorders hm hne) k

theorem lists_sharp (word : List UInt8) :
    (sharp word).Lists (sharpBorders word) (word.length + 1) := by
  have hplain := lists_plain word
  rw [← hplain.size_eq]
  refine Array.foldl_induction (fun i (t : BorderTable) ↦ t.Lists (sharpBorders word) i)
    ⟨rfl, by simp⟩ fun i t h ↦ ?_
  have hi : i.1 < word.length + 1 := hplain.size_eq ▸ i.2
  refine h.sharpen (Nat.le_of_lt_succ hi) fun k ↦ ?_
  rw [← hplain.border?_eq_some_iff i.1 hi]
  simp [border?]

theorem guides_plain (word : List UInt8) : (plain word).Guides word (word.length + 1) :=
  (lists_plain word).guides (fun _ ↦ subset_rfl) fun _ ↦ sharpBorders_subset

theorem guides_sharp (word : List UInt8) : (sharp word).Guides word (word.length + 1) :=
  (lists_sharp word).guides (fun _ ↦ sharpBorders_subset) fun _ ↦ subset_rfl

end BorderTable

end BytePatterns
