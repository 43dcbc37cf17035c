import BytePatterns.Proofs.Needle.Literal
import BytePatterns.Proofs.Tiling

namespace BytePatterns

/-- The occurrences from an offset on, each as early as the one before it allows. -/
inductive Greedy (word text : List UInt8) : Nat → List Nat → Prop
  | done {start : Nat} : placesFrom word text start = ∅ → Greedy word text start []
  | next {start s : Nat} {rest : List Nat} : IsLeast (placesFrom word text start) s →
      Greedy word text (s + max word.length 1) rest → Greedy word text start (s :: rest)

namespace Greedy

variable {word text : List UInt8} {start s : Nat} {found : List Nat}

/-- They are the first matches of the language that has no other word, one after another. -/
theorem tiling (h : Greedy word text start found) :
    Tiling {word} text start (found.map (Span.ofLength word.length)) := by
  induction h with
  | @done start hno =>
    refine .done fun i j hi hij hj hmem ↦ ?_
    have hplace : i ∈ placesFrom word text start := ⟨hi, ((extract_eq_iff hij hj).1 hmem).2⟩
    rw [hno] at hplace
    exact hplace
  | @next start s rest hleast _ ih =>
    have hafter : (Span.ofLength word.length s).after = s + max word.length 1 :=
      Nat.add_max_add_left ..
    exact .next (firstMatch_singleton_iff.2 ⟨hleast, rfl⟩) (hafter ▸ ih)

theorem apart (h : Greedy word text start found) :
    found.Pairwise fun s s' ↦ s + max word.length 1 ≤ s' := by
  refine (List.pairwise_map.1 h.tiling.pairwise).imp fun {s s'} hlt ↦ ?_
  simp only [Span.ofLength] at hlt
  omega

/-- What is passed over overlaps the occurrence before it. -/
theorem covers (h : Greedy word text start found) (hs : s ∈ placesFrom word text start) :
    s ∈ found ∨ ∃ s' ∈ found, s' < s ∧ s < s' + word.length := by
  induction h with
  | done hno =>
    rw [hno] at hs
    exact absurd hs (Set.notMem_empty s)
  | @next start first rest hleast _ ih =>
    rcases (hleast.2 hs).eq_or_lt with rfl | hlt
    · exact .inl List.mem_cons_self
    · -- what begins after `first` overlaps it or is left to the rest of the search
      rcases Nat.lt_or_ge s (first + max word.length 1) with hover | hbehind
      · exact .inr ⟨first, List.mem_cons_self, hlt, by omega⟩
      · rcases ih ⟨hbehind, hs.2⟩ with hmem | ⟨s', hs', hbounds⟩
        · exact .inl (List.mem_cons_of_mem _ hmem)
        · exact .inr ⟨s', List.mem_cons_of_mem _ hs', hbounds⟩

theorem eq_range_of_nil (h : Greedy [] text 0 found) : found = List.range (text.length + 1) := by
  have hall : Tiling {[]} text 0 ((List.range' 0 (text.length + 1)).map fun i ↦ ⟨i, i⟩) :=
    tiling_of_nil_mem (Set.mem_singleton []) (Nat.zero_add _)
  rw [← List.range_eq_range'] at hall
  have hmap := congrArg (List.map Span.start) (h.tiling.unique hall)
  simpa [Function.comp_def, Span.ofLength] using hmap

end Greedy

namespace Needle

variable {n : Needle} {word : List UInt8}

theorem Guided.greedy (h : n.Guided word) (text : List UInt8) (start : Nat) :
    Greedy word text start (n.occurrencesFrom text start) := by
  fun_induction occurrencesFrom n text start with
  | case1 start hnone =>
    exact .done (Set.eq_empty_iff_forall_notMem.2 fun _ ↦ h.not_mem_of_findAt? hnone)
  | case2 start s hs ih =>
    refine .next (h.isLeast_of_findAt? hs) ?_
    rw [← h.size_eq]
    exact ih

theorem answers_of_ended {text : List UInt8} {resume : Option Nat}
    (h : (n.next text resume).1 = none) (count : Nat) :
    n.answers text count (n.next text resume).2 = List.replicate count none := by
  have hended : (n.next text resume).2 = none := congrArg (Option.map n.after) h
  rw [hended, answers_of_none]

structure Enumerates (n : Needle) (word : List UInt8) : Prop where
  greedy : ∀ text, Greedy word text 0 (n.occurrences text)
  apart : ∀ text, (n.occurrences text).Pairwise fun s s' ↦ s + max word.length 1 ≤ s'
  covered : ∀ text s, OccursAt word text s →
    s ∈ n.occurrences text ∨ ∃ s' ∈ n.occurrences text, s' < s ∧ s < s' + word.length
  of_empty : word = [] → ∀ text, n.occurrences text = List.range (text.length + 1)
  answers_eq : ∀ text count,
    n.answers text count (some 0) = (List.range count).map ((n.occurrences text)[·]?)
  ended : ∀ text resume, (n.next text resume).1 = none →
    ∀ count, n.answers text count (n.next text resume).2 = List.replicate count none

theorem ofWord_enumerates (word : List UInt8) : (ofWord word).Enumerates word := by
  have hgreedy (text : List UInt8) := (guided_ofWord word).greedy text 0
  refine ⟨hgreedy, fun text ↦ (hgreedy text).apart, fun text s hs ↦ ?_, fun hword text ↦ ?_,
    fun text count ↦ ?_, fun _ _ ↦ answers_of_ended⟩
  · exact (hgreedy text).covers ⟨Nat.zero_le s, hs⟩
  · subst hword
    exact (hgreedy text).eq_range_of_nil
  · exact answers_of_some count 0

/-- Asked six times for `aa` in `aaaaa`. -/
example : (ofWord [97, 97]).answers [97, 97, 97, 97, 97] 6 (some 0) =
    [some 0, some 2, none, none, none, none] := by decide +kernel

end Needle

end BytePatterns
