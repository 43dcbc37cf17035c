import BytePatterns.Proofs.Regex.Lowering
import BytePatterns.Proofs.Tree.Symbolic
import BytePatterns.Regex.Language

namespace BytePatterns

open scoped Computability

section Powers

variable {l m : Language UInt8} {p : Nat → Prop} {n : Nat} {w : List UInt8}

theorem mem_pow_mul_iff (hm : ∀ v, v ∈ m ↔ ∃ k, p k ∧ v ∈ l ^ k) :
    w ∈ l ^ n * m ↔ ∃ k, p k ∧ w ∈ l ^ (n + k) := by
  simp only [pow_add, Language.mem_mul]
  refine ⟨fun hw ↦ ?_, fun hw ↦ ?_⟩
  · obtain ⟨u, hu, v, hv, rfl⟩ := hw
    obtain ⟨k, hk, hv⟩ := (hm v).1 hv
    exact ⟨k, hk, u, hu, v, hv, rfl⟩
  · obtain ⟨k, hk, u, hu, v, hv, rfl⟩ := hw
    exact ⟨u, hu, v, (hm v).2 ⟨k, hk, hv⟩, rfl⟩

theorem mem_add_one_pow_iff : w ∈ (l + 1) ^ n ↔ ∃ k ≤ n, w ∈ l ^ k := by
  induction n generalizing w with
  | zero => simp
  | succ n ih =>
    rw [pow_succ, mul_add, mul_one, Language.mem_add, ih, Language.mem_mul]
    refine ⟨fun h ↦ ?_, fun h ↦ ?_⟩
    · rcases h with ⟨u, hu, v, hv, rfl⟩ | ⟨k, hk, hw⟩
      · obtain ⟨k, hk, hu⟩ := ih.1 hu
        exact ⟨k + 1, Nat.succ_le_succ hk, pow_succ l k ▸ Language.append_mem_mul hu hv⟩
      · exact ⟨k, Nat.le_succ_of_le hk, hw⟩
    · obtain ⟨k, hk, hw⟩ := h
      -- the last copy is left out unless all of them are used
      rcases Nat.le_succ_iff.1 hk with hk | rfl
      · exact .inr ⟨k, hk, hw⟩
      · rw [pow_succ, Language.mem_mul] at hw
        obtain ⟨u, hu, v, hv, rfl⟩ := hw
        exact .inl ⟨u, ih.2 ⟨n, le_rfl, hu⟩, v, hv, rfl⟩

end Powers

namespace Interval

variable {i : Interval Char} {b : UInt8}

theorem mem_lowBytes_iff (hi : i.first.toNat ≤ i.last.toNat) (hlast : i.last.toNat ≤ 255) :
    b ∈ i.lowBytes ↔ i.first.toNat ≤ b.toNat ∧ b.toNat ≤ i.last.toNat := by
  rw [lowBytes, mem_bytes_iff, UInt8.le_iff_toNat_le, UInt8.le_iff_toNat_le, toNat_ofNat hlast,
    toNat_ofNat (hi.trans hlast)]

theorem lowBytes_ne_nil (hi : i.first.toNat ≤ i.last.toNat) (hlast : i.last.toNat ≤ 255) :
    i.lowBytes ≠ [] := by
  apply bytes_ne_nil
  rwa [toNat_ofNat hlast, toNat_ofNat (hi.trans hlast)]

end Interval

namespace Regex

variable {limit : Option Nat} {t : Tree} {ts : List Tree} {rs : List Regex} {w : List UInt8}

theorem language_copies (n : Nat) (t : Tree) (rest : List Tree) :
    (Tree.concatAll (List.replicate n t ++ rest)).language =
      t.language ^ n * (rest.map Tree.language).prod := by
  rw [Tree.language_concatAll, List.map_append, List.prod_append, List.map_replicate,
    List.prod_replicate]

theorem mem_language_repeated {least : Nat} {most : Option Nat}
    (h : ∀ bound ∈ most, least ≤ bound) :
    w ∈ (repeated least most t).language ↔
      ∃ k, least ≤ k ∧ (∀ bound ∈ most, k ≤ bound) ∧ w ∈ t.language ^ k := by
  cases most with
  | none =>
    have htail (v) : v ∈ t.star.language ↔ ∃ k, True ∧ v ∈ t.language ^ k := by
      rw [Tree.language, Language.kstar_eq_iSup_pow, Language.mem_iSup]
      simp only [true_and]
    simp only [repeated, language_copies, List.map_singleton, List.prod_singleton,
      mem_pow_mul_iff htail]
    refine ⟨fun hw ↦ ?_, fun hw ↦ ?_⟩
    · obtain ⟨k, -, hw⟩ := hw
      exact ⟨least + k, by omega, by simp, hw⟩
    · obtain ⟨k, hk, -, hw⟩ := hw
      exact ⟨k - least, trivial, by rwa [Nat.add_sub_cancel' hk]⟩
  | some most =>
    have hle := h most rfl
    have htail (v) :
        v ∈ t.optional.language ^ (most - least) ↔ ∃ k ≤ most - least, v ∈ t.language ^ k :=
      mem_add_one_pow_iff
    simp only [repeated, language_copies, List.map_replicate, List.prod_replicate,
      mem_pow_mul_iff htail]
    refine ⟨fun hw ↦ ?_, fun hw ↦ ?_⟩
    · obtain ⟨k, hk, hw⟩ := hw
      refine ⟨least + k, by omega, ?_, hw⟩
      intro bound hbound
      obtain rfl := Option.mem_some.1 hbound
      omega
    · obtain ⟨k, hk, hk', hw⟩ := hw
      have hk' := hk' most rfl
      exact ⟨k - least, by omega, by rwa [Nat.add_sub_cancel' hk]⟩

theorem mem_treeOfBytes {intervals : List (Interval UInt8)} (h : Interval.Ordered intervals)
    (hne : intervals ≠ []) : w ∈ (treeOfBytes (intervals.flatMap Interval.bytes)).language ↔
      ∃ b, w = [b] ∧ ∃ i ∈ intervals, i.first ≤ b ∧ b ≤ i.last := by
  have hnodup : (intervals.flatMap Interval.bytes).Nodup :=
    h.flatMap_bytes_increasing.imp fun hlt ↦ UInt8.ne_of_lt hlt
  simp only [← Interval.mem_bytes_iff, ← List.mem_flatMap]
  rw [treeOfBytes]
  split
  case isTrue hlength =>
    -- 256 different bytes are all there are
    simp only [mem_of_length_eq hnodup hlength, and_true]
    rfl
  case isFalse =>
    have hne' := flatMap_ne_nil hne fun i hi ↦ Interval.bytes_ne_nil (h.nonempty i hi)
    rw [Tree.mem_language_alternAll_bytes hne']
    simp only [and_comm]

theorem mem_treeOfScalars {intervals : List (Interval Char)} (hordered : Interval.Ordered intervals)
    (hne : intervals ≠ []) (h : treeOfScalars intervals = .ok t) :
    w ∈ t.language ↔
      ∃ b, w = [b] ∧ ∃ i ∈ intervals, i.first.toNat ≤ b.toNat ∧ b.toNat ≤ i.last.toNat := by
  rcases treeOfScalars_cases h with ⟨rfl, rfl⟩ | ⟨hlow, rfl⟩
  · have hall (b : UInt8) : ∃ i ∈ [(⟨Char.ofNat 0, Char.ofNat 0x10FFFF⟩ : Interval Char)],
        i.first.toNat ≤ b.toNat ∧ b.toNat ≤ i.last.toNat := by
      refine ⟨_, List.mem_singleton_self _, Nat.zero_le _, b.toNat_lt.le.trans ?_⟩
      decide
    simp only [hall, and_true]
    rfl
  · have hne' := flatMap_ne_nil hne fun i hi ↦
      Interval.lowBytes_ne_nil (hordered.nonempty i hi) (hlow i hi)
    rw [Tree.mem_language_alternAll_bytes hne']
    refine exists_congr fun b ↦ ?_
    rw [and_comm, List.mem_flatMap]
    refine and_congr_right fun _ ↦ exists_congr fun i ↦ and_congr_right fun hi ↦ ?_
    exact Interval.mem_lowBytes_iff (hordered.nonempty i hi) (hlow i hi)

theorem product_eq (rs : List Regex) : product rs = (rs.map language).prod := by
  induction rs with
  | nil => rfl
  | cons r rest ih => rw [product, ih, List.map_cons, List.prod_cons]

theorem sum_eq (rs : List Regex) : sum rs = (rs.map language).sum := by
  induction rs with
  | nil => rfl
  | cons r rest ih => rw [sum, ih, List.map_cons, List.sum_cons]

theorem map_language_eq (h : toTrees limit rs = .ok ts)
    (ih : ∀ r ∈ rs, ∀ {t}, r.toTree limit = .ok t → t.language = r.language) :
    ts.map Tree.language = rs.map language := by
  rw [toTrees_eq_ok_iff] at h
  induction h with
  | nil => rfl
  | cons ht _ ihrest =>
    rw [List.map_cons, List.map_cons, ih _ List.mem_cons_self ht,
      ihrest fun r hr ↦ ih r (List.mem_cons_of_mem _ hr)]

/-- If a regular expression is in order, then its tree describes the same words. -/
theorem language_toTree {r : Regex} (hr : r.WellFormed) (h : r.toTree limit = .ok t) :
    t.language = r.language := by
  -- by the rules of the hypothesis, so that it comes with every operand of a list
  induction hr generalizing t with
  | empty =>
    obtain rfl := Except.ok.inj h
    rfl
  | literal =>
    obtain rfl := Except.ok.inj h
    exact Tree.language_literal _
  | bytes hordered =>
    obtain ⟨hne, rfl⟩ := toTree_bytes_eq_ok_iff.1 h
    ext w
    exact mem_treeOfBytes hordered hne
  | scalars hordered =>
    obtain ⟨hne, ht⟩ := toTree_scalars_eq_ok_iff.1 h
    ext w
    exact mem_treeOfScalars hordered hne ht
  | look => cases h
  | repetition hle _ ih =>
    obtain ⟨u, hu, -, rfl⟩ := toTree_repetition_eq_ok_iff.1 h
    ext w
    rw [mem_language_repeated hle, ih hu]
    rfl
  | capture _ ih => exact ih h
  | @concat items _ ih =>
    obtain ⟨ts, hts, rfl⟩ := toTree_concat_eq_ok_iff.1 h
    rw [Tree.language_concatAll, map_language_eq hts ih, ← product_eq, language]
  | @alternation branches hne _ ih =>
    obtain ⟨ts, hts, rfl⟩ := toTree_alternation_eq_ok_iff.1 h
    have hmap := map_language_eq hts ih
    -- an alternation of no trees would be the empty word
    have hne' : ts ≠ [] := by
      rintro rfl
      exact hne (List.map_eq_nil_iff.1 hmap.symm)
    rw [Tree.language_alternAll hne', hmap, ← sum_eq, language]

def lettersThenAny : Regex :=
  concat [repetition 1 (some 2) true (alternation [bytes [⟨97, 98⟩], literal [99, 100]]),
    scalars [⟨Char.ofNat 0, Char.ofNat 0x10FFFF⟩]]

theorem lettersThenAny_wellFormed : lettersThenAny.WellFormed := by
  have hclass : (bytes [⟨97, 98⟩]).WellFormed := .bytes ⟨by decide, by simp⟩
  have hany : (scalars [⟨Char.ofNat 0, Char.ofNat 0x10FFFF⟩]).WellFormed :=
    .scalars ⟨by decide, by simp⟩
  have hcopies : (repetition 1 (some 2) true
      (alternation [bytes [⟨97, 98⟩], literal [99, 100]])).WellFormed :=
    .repetition (by simp) (.alternation (by simp) (by simp [hclass, WellFormed.literal]))
  exact .concat (by simp [hcopies, hany])

theorem language_toTree_lettersThenAny :
    ∃ t, lettersThenAny.toTree (some 26) = .ok t ∧ t.language = lettersThenAny.language := by
  have hbranches : (alternation [bytes [⟨97, 98⟩], literal [99, 100]]).toTree (some 26) =
      .ok (.altern (.altern (.byte 97) (.byte 98)) (.concat (.byte 99) (.byte 100))) := by
    with_unfolding_all rfl
  have hsize : checkSize (some 26) (repetitionSize 1 (some 2) 12) = .ok () := by
    simp [repetitionSize, saturated_of_lt, checkSize]
  have hcopies : (repetition 1 (some 2) true
      (alternation [bytes [⟨97, 98⟩], literal [99, 100]])).toTree (some 26) = .ok _ :=
    toTree_repetition_eq_ok_iff.2 ⟨_, hbranches, hsize, rfl⟩
  have hany : (scalars [⟨Char.ofNat 0, Char.ofNat 0x10FFFF⟩]).toTree (some 26) = .ok .any := by
    with_unfolding_all rfl
  have h : lettersThenAny.toTree (some 26) = .ok _ :=
    toTree_concat_eq_ok_iff.2 ⟨_, toTrees_eq_ok_iff.2 (.cons hcopies (.cons hany .nil)), rfl⟩
  exact ⟨_, h, language_toTree lettersThenAny_wellFormed h⟩

end Regex

end BytePatterns
